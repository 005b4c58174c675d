import WasmHost.Wasi.System

/-!
# The start of a run

The mounts that a run starts with: the workspace, writable when it comes from a snapshot, with the
package files that no entry of the snapshot hides, and the read-only package root. Snapshots and
package files are the normalized ones: package files have canonical paths by construction, and a
snapshot is given by the keys of its entries.
-/

namespace WasmHost

/-- A file of the package after `normalizeWasiFiles`. -/
structure PackageFile where
  path : Text
  bytes : Bytes
  canonical : CanonicalKey path

/-- An entry of `normalizeWasiFiles`. `none`: the package is rejected. -/
def normalizeWasiFile (path : Text) (bytes : Bytes) : Option PackageFile :=
  match h : normalizePackageFilePath path with
  | some key => some ⟨key, bytes, canonicalKey_of_normalizePackageFilePath h⟩
  | none => none

/-- File objects with the map that names them. -/
structure FileTable where
  records : Heap FileRecord
  files : OrdMap Text ℕ

namespace FileTable

/-- Put a new file object under a key. -/
def put (t : FileTable) (path : Text) (record : FileRecord) : FileTable :=
  ⟨t.records.alloc record, t.files.set path t.records.next⟩

def putSnapshotFile (t : FileTable) (file : World.SnapshotFile) : FileTable :=
  t.put file.path ⟨file.bytes, some file.path, some file.mtimeMs, false⟩

/-- A package file in a read-only mount. -/
def putPackageFile (t : FileTable) (file : PackageFile) : FileTable :=
  t.put file.path ⟨file.bytes, some file.path, none, false⟩

/-- A package file in a writable workspace, where an entry of the snapshot hides it. -/
def putFallbackFile (t : FileTable) (file : PackageFile) : FileTable :=
  if t.files.has file.path then t
  else t.put file.path ⟨file.bytes, some file.path, none, true⟩

end FileTable

/-- The loop of `addParentDirs`. -/
def addParentDirsFrom (current : Text) : List Text → OrdSet Text → OrdSet Text
  | [], dirs => dirs
  | [_], dirs => dirs
  | segment :: rest, dirs =>
      let next := joinKey current segment
      addParentDirsFrom next rest (if next = [] then dirs else dirs.set next ())

def addParentDirs (dirs : OrdSet Text) (path : Text) : OrdSet Text :=
  addParentDirsFrom [] (path.splitOn '/') dirs

/-- The objects of the package root, behind the ones there are already. -/
def readOnlyPackageRootMount (records : Heap FileRecord) (files : List PackageFile) :
    Heap FileRecord × PackageRoot :=
  let table := files.foldl FileTable.putPackageFile ⟨records, OrdMap.empty⟩
  let dirs := files.foldl (fun dirs file => addParentDirs dirs file.path)
    (OrdMap.ofList [([], ()), ("workspace".toList, ()), ("tmp".toList, ())])
  (table.records, ⟨⟨table.files, dirs⟩, !table.files.entries.isEmpty⟩)

/-- The host of a run with the given objects behind its two mounts. -/
def Host.ofMounts (table : FileTable) (dirs : OrdSet Text) (writable : Bool)
    (rootFiles : List PackageFile) : Host :=
  let root := readOnlyPackageRootMount table.records rootFiles
  { records := root.1
    fileMaps := Heap.empty.alloc table.files
    dirSets := Heap.empty.alloc dirs
    pipes := Heap.empty
    offsets := Heap.empty
    workspace := ⟨0, 0, false, writable⟩
    packageRoot := root.2
    stdout := []
    stderr := [] }

/-- The host that a snapshot boots. -/
def writableWorkspaceMountFromSnapshot (snapshot : World.SnapshotTree)
    (files rootFiles : List PackageFile) : Host :=
  let stored := snapshot.files.foldl FileTable.putSnapshotFile ⟨Heap.empty, OrdMap.empty⟩
  Host.ofMounts (files.foldl FileTable.putFallbackFile stored)
    (OrdMap.ofList (([], ()) :: snapshot.directories.map fun path => (path, ()))) true rootFiles

/-- The host that a run starts with. -/
def createWasiWorkspaceMount (snapshot : Option World.SnapshotTree)
    (files rootFiles : List PackageFile) : Host :=
  match snapshot with
  | some snapshot => writableWorkspaceMountFromSnapshot snapshot files rootFiles
  | none =>
      Host.ofMounts (files.foldl FileTable.putPackageFile ⟨Heap.empty, OrdMap.empty⟩) OrdMap.empty
        false rootFiles

/-- A run before its first call. -/
def System.boot (snapshot : Option World.SnapshotTree) (files rootFiles : List PackageFile)
    (cwd : Option Text) (stdin : Bytes) : System :=
  System.start (createWasiWorkspaceMount snapshot files rootFiles) cwd stdin

@[simp]
theorem pipes_createWasiWorkspaceMount (snapshot : Option World.SnapshotTree)
    (files rootFiles : List PackageFile) :
    (createWasiWorkspaceMount snapshot files rootFiles).pipes = Heap.empty := by
  cases snapshot <;> rfl

end WasmHost

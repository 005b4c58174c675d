import WasmHost.Lib.Except
import WasmHost.Wasi.Mount

/-!
# The memory store

`MemoryBrowserWorkspaceStore`: a map of directories and a map of files, named by keys, and the
snapshots it imports and exports. A snapshot spells paths out (`/workspace/a/b`), and its contents
are given here by the bytes that their base64 text stands for. Snapshots are sorted by
`localeCompare`, which is a parameter of the exports: nothing depends on the order it gives.

* `Store.Valid`: what the store checks of a snapshot, next to the spelling of its records.
* `valid_loadSnapshot`: a store that has loaded a snapshot is valid.
-/

namespace WasmHost

open OrdMap

/-- A directory of the store. -/
structure StoreDirectory where
  mtimeMs : ℕ
  path : Text
  deriving DecidableEq, Repr

/-- A file of the store. -/
structure StoreFile where
  content : Bytes
  mtimeMs : ℕ
  path : Text
  deriving DecidableEq, Repr

/-- A `MemoryBrowserWorkspaceStore`. -/
structure Store where
  directories : OrdMap Text StoreDirectory
  files : OrdMap Text StoreFile

/-- A directory of a snapshot. `mtimeMs` is `none` where it is not an integer. -/
structure SnapshotDirectoryEntry where
  mtimeMs : Option Int
  path : Text
  deriving DecidableEq, Repr

/-- A file of a snapshot. -/
structure SnapshotFileEntry where
  content : Bytes
  mtimeMs : Option Int
  path : Text
  size : ℕ
  deriving DecidableEq, Repr

/-- A snapshot of the workspace. -/
structure Snapshot where
  directories : List SnapshotDirectoryEntry
  files : List SnapshotFileEntry
  root : Text
  version : ℕ
  deriving DecidableEq, Repr

/-- What the store reports about a path. -/
structure WorkspaceStat where
  kind : PathKind
  mtimeMs : ℕ
  path : Text
  size : ℕ
  deriving DecidableEq, Repr

/-- What a file is told to be. -/
def publicFileStat (path : Text) (record : StoreFile) : WorkspaceStat :=
  ⟨.file, record.mtimeMs, path, record.content.length⟩

def publicDirectoryStat (path : Text) (record : StoreDirectory) : WorkspaceStat :=
  ⟨.directory, record.mtimeMs, path, 0⟩

/-- A new directory. -/
def directoryRecord (path : Text) (mtimeMs : ℕ) : StoreDirectory :=
  ⟨mtimeMs, if path = [] then workspacePreopenPath else path⟩

/-- The directory that holds a key. -/
def parentPath (path : Text) : Text := (SepPath.parent? '/' path).getD []

def isChildPath (parent child : Text) : Bool :=
  if parent = [] then child ≠ [] else SepPath.Below '/' parent child

/-- `Number.isSafeInteger(value)` and not negative. -/
def nonNegativeTime (value : Option Int) : Except WorkspaceError ℕ :=
  match value with
  | some number =>
      if 0 ≤ number ∧ number < 2 ^ 53 then .ok number.toNat
      else .error ⟨.invalidSnapshot, "workspace timestamp is invalid"⟩
  | none => .error ⟨.invalidSnapshot, "workspace timestamp is invalid"⟩

/-- Paths are files or directories, below directories. -/
def validateWorkspaceGraph (files : OrdMap Text StoreFile)
    (directories : OrdMap Text StoreDirectory) : Except WorkspaceError Unit :=
  if files.keys.any (fun path => directories.has path) then
    .error ⟨.invalidSnapshot, "workspace path has multiple kinds"⟩
  else if files.keys.any (fun path => !directories.has (parentPath path)) then
    .error ⟨.invalidSnapshot, "workspace file parent is missing"⟩
  else if directories.keys.any (fun path => path ≠ [] && !directories.has (parentPath path)) then
    .error ⟨.invalidSnapshot, "workspace directory parent is missing"⟩
  else .ok ()

namespace Store

/-- A new store, made at a time. -/
def empty (now : ℕ) : Store where
  directories := OrdMap.empty.set [] (directoryRecord [] now)
  files := OrdMap.empty

/-! ### Snapshots -/

/-- The key and the record of a directory of a snapshot. -/
def loadDirectory (entry : SnapshotDirectoryEntry) :
    Except WorkspaceError (Text × StoreDirectory) := do
  let path ← normalizeWorkspacePath entry.path
  let mtimeMs ← nonNegativeTime entry.mtimeMs
  return (path, directoryRecord (workspacePath path) mtimeMs)

/-- The key and the record of a file of a snapshot. -/
def loadFile (entry : SnapshotFileEntry) : Except WorkspaceError (Text × StoreFile) := do
  let path ← normalizeWorkspacePath entry.path
  if path = [] then .error ⟨.invalidSnapshot, "workspace file path is required"⟩
  else
    let mtimeMs ← nonNegativeTime entry.mtimeMs
    return (path, ⟨entry.content, mtimeMs, workspacePath path⟩)

/-- The store after `loadSnapshot`, which replaces what it held. -/
def loadSnapshot (now : ℕ) (snapshot : Snapshot) : Except WorkspaceError Store := do
  if snapshot.version ≠ 1 ∨ snapshot.root ≠ workspacePreopenPath then
    .error ⟨.invalidSnapshot, "workspace snapshot version is unsupported"⟩
  else
    let directories ← snapshot.directories.mapM loadDirectory
    let files ← snapshot.files.mapM loadFile
    let store : Store :=
      ⟨(OrdMap.empty.set [] (directoryRecord [] now)).setAll directories, OrdMap.ofList files⟩
    validateWorkspaceGraph store.files store.directories
    return store

variable (localeLe : Text → Text → Bool) (s : Store) {snapshot : Snapshot} {store : Store}
    {p : Text}

/-- The snapshot of a store. -/
def exportSnapshot : Snapshot where
  directories :=
    (s.directories.values.map fun record =>
      (⟨some record.mtimeMs, record.path⟩ : SnapshotDirectoryEntry)).mergeSort
        fun left right => localeLe left.path right.path
  files :=
    (s.files.values.map fun record =>
      (⟨record.content, some record.mtimeMs, record.path, record.content.length⟩ :
        SnapshotFileEntry)).mergeSort fun left right => localeLe left.path right.path
  root := workspacePreopenPath
  version := 1

/-! ### Operations -/

/-- The directory above a path is there. -/
def requireParentDirectory (path : Text) : Except WorkspaceError Unit :=
  if s.files.has (parentPath path) = true then
    .error ⟨.notDirectory, "workspace parent is a file"⟩
  else if s.directories.has (parentPath path) = false then
    .error ⟨.notFound, "workspace parent directory is unavailable"⟩
  else .ok ()

/-- Something is below a path. -/
def hasChildren (path : Text) : Bool :=
  s.files.keys.any (fun file => isChildPath path file) ||
    s.directories.keys.any (fun directory => directory ≠ path && isChildPath path directory)

/-- Writes a file. -/
def writeFile (now : ℕ) (path : Text) (content : Bytes) :
    Except WorkspaceError (Store × WorkspaceStat) := do
  let key ← normalizeWorkspacePath path
  if key = [] then .error ⟨.invalidPath, "workspace file path is required"⟩
  else if s.directories.has key = true then .error ⟨.notFile, "workspace path is a directory"⟩
  else
    s.requireParentDirectory key
    let record : StoreFile := ⟨content, now, workspacePath key⟩
    return ({ s with files := s.files.set key record }, publicFileStat (workspacePath key) record)

/-- Reads a file. -/
def readFile (path : Text) : Except WorkspaceError Bytes := do
  let key ← normalizeWorkspacePath path
  match s.files.get key with
  | some record => return record.content
  | none =>
      if s.directories.has key = true then .error ⟨.notFile, "workspace path is a directory"⟩
      else .error ⟨.notFound, "workspace file is unavailable"⟩

/-- Deletes a file. -/
def deleteFile (path : Text) : Except WorkspaceError Store := do
  let key ← normalizeWorkspacePath path
  if s.files.has key = true then return { s with files := s.files.delete key }
  else if s.directories.has key = true then .error ⟨.notFile, "workspace path is a directory"⟩
  else .error ⟨.notFound, "workspace file is unavailable"⟩

/-- The loop of `ensureDirectory`. -/
def ensureDirectoryFrom (now : ℕ) (current : Text) :
    List Text → OrdMap Text StoreDirectory → Except WorkspaceError (OrdMap Text StoreDirectory)
  | [], directories => .ok directories
  | part :: parts, directories =>
      let next := joinKey current part
      if s.files.has next = true then .error ⟨.notDirectory, "workspace path is a file"⟩
      else
        ensureDirectoryFrom now next parts
          (if directories.has next = true then directories
           else directories.set next (directoryRecord (workspacePreopenPath ++ '/' :: next) now))

/-- The directories after `ensureDirectory`. -/
def ensureDirectory (now : ℕ) (path : Text) : Except WorkspaceError Store := do
  let directories ← s.ensureDirectoryFrom now [] ((path.splitOn '/').filter (· ≠ [])) s.directories
  return { s with directories := directories }

/-- Creates a directory. -/
def createDirectory (now : ℕ) (path : Text) (recursive : Bool) :
    Except WorkspaceError (Store × WorkspaceStat) := do
  let key ← normalizeWorkspacePath path
  let stat (store : Store) : WorkspaceStat :=
    publicDirectoryStat (workspacePath key) ((store.directories.get key).getD ⟨0, []⟩)
  if key = [] then return (s, stat s)
  else if s.files.has key = true then .error ⟨.notDirectory, "workspace path is a file"⟩
  else if recursive then
    let store ← s.ensureDirectory now key
    return (store, stat store)
  else
    s.requireParentDirectory key
    if s.directories.has key = true then
      .error ⟨.alreadyExists, "workspace directory already exists"⟩
    else
      let store : Store :=
        { s with directories := s.directories.set key (directoryRecord (workspacePath key) now) }
      return (store, stat store)

/-- The store without a directory. -/
def deleteDirectoryTree (path : Text) : Store where
  directories := s.directories.filterKeys fun key => !(key = path || isChildPath path key)
  files := s.files.filterKeys fun key => !(key = path || isChildPath path key)

/-- Deletes a directory. -/
def deleteDirectory (path : Text) (recursive : Bool) : Except WorkspaceError Store := do
  let key ← normalizeWorkspacePath path
  if key = [] then .error ⟨.invalidPath, "workspace root cannot be deleted"⟩
  else if s.directories.has key = false then
    .error ⟨.notFound, "workspace directory is unavailable"⟩
  else if recursive = false ∧ s.hasChildren key = true then
    .error ⟨.notEmpty, "workspace directory is not empty"⟩
  else return s.deleteDirectoryTree key

/-- The entries of a directory, files first, sorted by path. -/
def readDirectory (path : Text) : Except WorkspaceError (List WorkspaceStat) := do
  let key ← normalizeWorkspacePath path
  if s.directories.has key = true then
    return (((s.files.entries.filter fun e => parentPath e.1 = key).map fun e =>
          publicFileStat (workspacePreopenPath ++ '/' :: e.1) e.2) ++
        (s.directories.entries.filter fun e => e.1 ≠ [] && parentPath e.1 = key).map fun e =>
          publicDirectoryStat (workspacePreopenPath ++ '/' :: e.1) e.2).mergeSort
      fun left right => localeLe left.path right.path
  else if s.files.has key = true then .error ⟨.notDirectory, "workspace path is a file"⟩
  else .error ⟨.notFound, "workspace directory is unavailable"⟩

/-- What a path is. -/
def stat (path : Text) : Except WorkspaceError WorkspaceStat := do
  let key ← normalizeWorkspacePath path
  match s.files.get key, s.directories.get key with
  | some file, _ => return publicFileStat (workspacePath key) file
  | none, some directory => return publicDirectoryStat (workspacePath key) directory
  | none, none => .error ⟨.notFound, "workspace path is unavailable"⟩

/-- Every entry at or below `source` is set again under its new key. -/
def moveDirectory (now : ℕ) (source target : Text) : Store where
  directories := s.directories.rekey (SepPath.move '/' source target) fun key record =>
    if SepPath.AtOrBelow '/' source key then
      ⟨now, workspacePath (SepPath.rebase source target key)⟩
    else record
  files := s.files.rekey (fun key =>
      if SepPath.Below '/' source key then SepPath.rebase source target key else key)
    fun key record =>
      if SepPath.Below '/' source key then
        { record with
          mtimeMs := now
          path := workspacePreopenPath ++ '/' :: SepPath.rebase source target key }
      else record

/-- Moves a directory. -/
def renameDirectory (now : ℕ) (source target : Text) : Except WorkspaceError Store :=
  if target = source then .ok s
  else if isChildPath source target = true then
    .error ⟨.invalidPath, "workspace directory cannot be moved inside itself"⟩
  else .ok (s.moveDirectory now source target)

/-- Moves a file or a directory. -/
def rename (now : ℕ) (fromPath toPath : Text) : Except WorkspaceError Store := do
  let source ← normalizeWorkspacePath fromPath
  let target ← normalizeWorkspacePath toPath
  if source = [] ∨ target = [] then .error ⟨.invalidPath, "workspace rename path is required"⟩
  else
    s.requireParentDirectory target
    if s.files.has target = true ∨ s.directories.has target = true then
      .error ⟨.alreadyExists, "workspace target already exists"⟩
    else
      match s.files.get source with
      | some record =>
          return { s with
            files := (s.files.delete source).set target
              { record with mtimeMs := now, path := workspacePath target } }
      | none =>
          if s.directories.has source = true then s.renameDirectory now source target
          else .error ⟨.notFound, "workspace source is unavailable"⟩

/-! ### Valid stores -/

/-- The graph of a store is a tree that starts at the root, and its records spell their keys. -/
structure Valid : Prop where
  root : s.directories.has [] = true
  disjoint : ∀ k, s.files.has k = true → s.directories.has k = false
  fileParent : ∀ k, s.files.has k = true → s.directories.has (parentPath k) = true
  directoryParent : ∀ k, s.directories.has k = true → s.directories.has (parentPath k) = true
  filePath : ∀ k record, s.files.get k = some record → record.path = workspacePath k
  directoryPath : ∀ k record, s.directories.get k = some record → record.path = workspacePath k

variable {localeLe s}

theorem validateWorkspaceGraph_eq_ok_iff {files : OrdMap Text StoreFile}
    {directories : OrdMap Text StoreDirectory} :
    validateWorkspaceGraph files directories = .ok () ↔
      (∀ k, files.has k = true → directories.has k = false) ∧
        (∀ k, files.has k = true → directories.has (parentPath k) = true) ∧
        ∀ k, directories.has k = true → k ≠ [] → directories.has (parentPath k) = true := by
  unfold validateWorkspaceGraph
  split
  next h =>
    simp only [List.any_eq_true, mem_keys] at h
    obtain ⟨k, hfile, hdir⟩ := h
    simp only [reduceCtorEq, false_iff]
    rintro ⟨hdisjoint, -⟩
    exact absurd (hdisjoint k hfile) (by simp [hdir])
  next hdisjoint =>
    simp only [List.any_eq_true, mem_keys] at hdisjoint
    split
    next h =>
      simp only [List.any_eq_true, mem_keys] at h
      obtain ⟨k, hfile, hparent⟩ := h
      simp only [reduceCtorEq, false_iff]
      rintro ⟨-, hfiles, -⟩
      simp [hfiles k hfile] at hparent
    next hfiles =>
      simp only [List.any_eq_true, mem_keys] at hfiles
      split
      next h =>
        simp only [List.any_eq_true, mem_keys] at h
        obtain ⟨k, hdir, hparent⟩ := h
        simp only [Bool.and_eq_true, decide_eq_true_eq] at hparent
        simp only [reduceCtorEq, false_iff]
        rintro ⟨-, -, hdirs⟩
        simp [hdirs k hdir hparent.1] at hparent
      next hdirs =>
        simp only [List.any_eq_true, mem_keys] at hdirs
        simp only [true_iff]
        refine ⟨fun k hk => ?_, fun k hk => ?_, fun k hk hne => ?_⟩
        · by_contra hdir
          exact hdisjoint ⟨k, hk, by simpa using hdir⟩
        · by_contra hparent
          exact hfiles ⟨k, hk, by simpa using hparent⟩
        · by_contra hparent
          exact hdirs ⟨k, hk, by simpa [hne] using hparent⟩

@[simp]
theorem parentPath_nil : parentPath [] = [] := rfl

theorem workspacePath_ne_nil (k : Text) : workspacePath k ≠ [] := by
  unfold workspacePath
  split
  · decide
  · exact List.append_ne_nil_of_right_ne_nil _ (List.cons_ne_nil _ _)

theorem directoryRecord_workspacePath (k : Text) (mtimeMs : ℕ) :
    directoryRecord (workspacePath k) mtimeMs = ⟨mtimeMs, workspacePath k⟩ := by
  simp [directoryRecord, workspacePath_ne_nil]

variable {k : Text} {now : ℕ}

theorem loadDirectory_eq_ok_iff {entry : SnapshotDirectoryEntry} {record : StoreDirectory} :
    loadDirectory entry = .ok (k, record) ↔
      normalizeWorkspacePath entry.path = .ok k ∧
        nonNegativeTime entry.mtimeMs = .ok record.mtimeMs ∧ record.path = workspacePath k := by
  obtain ⟨time, path⟩ := record
  simp only [loadDirectory, bind, Except.bind_eq_ok_iff, pure, Except.pure,
    directoryRecord_workspacePath, Except.ok.injEq, Prod.mk.injEq, StoreDirectory.mk.injEq]
  constructor
  · rintro ⟨key, hkey, mtimeMs, htime, rfl, rfl, rfl⟩
    exact ⟨hkey, htime, rfl⟩
  · rintro ⟨hkey, htime, rfl⟩
    exact ⟨k, hkey, time, htime, rfl, rfl, rfl⟩

theorem loadFile_eq_ok_iff {entry : SnapshotFileEntry} {record : StoreFile} :
    loadFile entry = .ok (k, record) ↔
      normalizeWorkspacePath entry.path = .ok k ∧ k ≠ [] ∧ record.content = entry.content ∧
        nonNegativeTime entry.mtimeMs = .ok record.mtimeMs ∧ record.path = workspacePath k := by
  obtain ⟨content, time, path⟩ := record
  simp only [loadFile, bind, Except.bind_eq_ok_iff, pure, Except.pure, Except.ite_error_eq_ok_iff,
    Except.ok.injEq, Prod.mk.injEq, StoreFile.mk.injEq]
  constructor
  · rintro ⟨key, hkey, hne, mtimeMs, htime, rfl, rfl, rfl, rfl⟩
    exact ⟨hkey, hne, rfl, htime, rfl⟩
  · rintro ⟨hkey, hne, rfl, htime, rfl⟩
    exact ⟨k, hkey, hne, time, htime, rfl, rfl, rfl, rfl⟩

/-- What a successful `loadSnapshot` has read and checked. -/
theorem loadSnapshot_eq_ok_iff :
    loadSnapshot now snapshot = .ok store ↔
      (snapshot.version = 1 ∧ snapshot.root = workspacePreopenPath) ∧
        ∃ directories files, snapshot.directories.mapM loadDirectory = .ok directories ∧
          snapshot.files.mapM loadFile = .ok files ∧
          store = ⟨(OrdMap.empty.set [] (directoryRecord [] now)).setAll directories,
            OrdMap.ofList files⟩ ∧
          validateWorkspaceGraph store.files store.directories = .ok () := by
  simp only [loadSnapshot, bind, Except.ite_error_eq_ok_iff, Except.bind_eq_ok_iff, pure,
    Except.pure, Except.ok.injEq, not_or, not_not]
  refine and_congr_right fun _ => exists_congr fun directories => ?_
  rw [exists_and_left]
  refine and_congr_right fun _ => exists_congr fun files => and_congr_right fun _ => ?_
  constructor
  · rintro ⟨⟨⟩, hgraph, rfl⟩
    exact ⟨rfl, hgraph⟩
  · rintro ⟨rfl, hgraph⟩
    exact ⟨⟨⟩, hgraph, rfl⟩

/-- A graph that has been checked, made of records that spell their keys, is a valid store. -/
theorem valid_of_validateWorkspaceGraph {directories : List (Text × StoreDirectory)}
    {files : List (Text × StoreFile)}
    (hdirectories : ∀ e ∈ directories, e.2.path = workspacePath e.1)
    (hfiles : ∀ e ∈ files, e.2.path = workspacePath e.1)
    (hgraph : validateWorkspaceGraph (OrdMap.ofList files)
      ((OrdMap.empty.set [] (directoryRecord [] now)).setAll directories) = .ok ()) :
    Valid ⟨(OrdMap.empty.set [] (directoryRecord [] now)).setAll directories,
      OrdMap.ofList files⟩ := by
  obtain ⟨hdisjoint, hfile, hdirectory⟩ := validateWorkspaceGraph_eq_ok_iff.1 hgraph
  refine ⟨?_, hdisjoint, hfile, fun k hk => ?_, fun k record hk => ?_, fun k record hk => ?_⟩
  · rw [has_setAll]
    exact .inr (by simp)
  · by_cases hne : k = []
    · rwa [hne] at hk ⊢
    · exact hdirectory k hk hne
  · exact hfiles _ ((exists_mem_of_get_setAll _ _ hk).resolve_right (by simp))
  · rcases exists_mem_of_get_setAll _ _ hk with hmem | hroot
    · exact hdirectories _ hmem
    · rw [get_set] at hroot
      split at hroot
      next heq =>
        rw [← Option.some.inj hroot, heq]
        rfl
      · cases hroot

/-- Loading a snapshot gives a valid store. -/
theorem valid_loadSnapshot (h : loadSnapshot now snapshot = .ok store) : store.Valid := by
  obtain ⟨-, directories, files, hdirectories, hfiles, rfl, hgraph⟩ := loadSnapshot_eq_ok_iff.1 h
  refine valid_of_validateWorkspaceGraph (fun e he => ?_) (fun e he => ?_) hgraph
  · obtain ⟨entry, -, hentry⟩ := Except.exists_of_mem_mapM hdirectories he
    exact (loadDirectory_eq_ok_iff.1 hentry).2.2
  · obtain ⟨entry, -, hentry⟩ := Except.exists_of_mem_mapM hfiles he
    exact (loadFile_eq_ok_iff.1 hentry).2.2.2.2

theorem parentPath_of_parent? {parent : Text} (h : SepPath.parent? '/' k = some parent) :
    parentPath k = parent := by
  rw [parentPath, h]
  rfl

/-- Whatever holds an entry of a valid store is a directory. -/
theorem Valid.has_of_below (h : s.Valid) (hbelow : SepPath.Below '/' p k)
    (hk : s.directories.has k = true ∨ s.files.has k = true) : s.directories.has p = true := by
  induction hn : k.length using Nat.strong_induction_on generalizing k with
  | _ n ih =>
    obtain ⟨parent, hparent, hat⟩ := SepPath.exists_parent?_of_below hbelow
    have hdirectory : s.directories.has parent = true := by
      rw [← parentPath_of_parent? hparent]
      exact hk.elim (h.directoryParent k) (h.fileParent k)
    rcases hat with rfl | hbelow'
    · exact hdirectory
    · exact ih parent.length (hn ▸ (SepPath.below_of_parent? hparent).length_lt) hbelow'
        (.inl hdirectory) rfl

end Store

end WasmHost

import WasmHost.Lib.Base64
import WasmHost.Text
import WasmHost.Workspace.Operations

/-!
# The methods of the memory store

`MemoryBrowserWorkspaceStore` method by method. A method reads the clock wherever the source calls
`currentTime`, and the clock may give anything: one that rejects keeps what it has changed by then.
Contents go through base64, as the host has it. Snapshots are sorted by `localeCompare`, which is a
parameter of the export.

* `Store.runOp`: a call of a method, and `Store.stepOp`: the store after it.
-/

namespace WasmHost

/-- What a method rejects with. -/
inductive StoreFault
  | workspace (error : WorkspaceError)
  /-- A `DOMException`, by its name. -/
  | dom (name : String)
  deriving DecidableEq, Repr

/-- What `now` returns when it is called again and again; `none` where that is no integer. -/
abbrev Clock := ℕ → Option Int

namespace Clock

/-- The readings behind the first one. -/
def rest (clock : Clock) : Clock := fun i => clock (i + 1)

/-- The readings behind the first `n`. -/
def drop (clock : Clock) (n : ℕ) : Clock := fun i => clock (i + n)

/-- A reading is a time. -/
def Ticks (clock : Clock) (i : ℕ) : Prop := ∃ time, nonNegativeTime (clock i) = .ok time

theorem drop_ticks (clock : Clock) (n i : ℕ) :
    (clock.drop n).Ticks i ↔ clock.Ticks (i + n) := Iff.rfl

end Clock

/-- A store while one of its methods runs. -/
structure StoreRun where
  store : Store
  clock : Clock

/-- A method of the memory store. -/
abbrev StoreM := ExceptT StoreFault (StateM StoreRun)

/-- The content a caller hands to `writeFile`. -/
inductive FileContent
  | text (text : Text)
  | bytes (bytes : Bytes)
  | other
  deriving DecidableEq, Repr

/-- Where the host takes its base64 from. -/
inductive Base64Engine
  /-- `Buffer` is defined. -/
  | buffer
  /-- `btoa` and `atob`. -/
  | window
  deriving DecidableEq, Repr

/-- A file of a snapshot object. -/
structure SnapshotFileObject where
  contentBase64 : Text
  mtimeMs : Option Int
  path : Text
  size : ℕ
  deriving DecidableEq, Repr

/-- What `exportSnapshot` returns. -/
structure SnapshotObject where
  directories : List SnapshotDirectoryEntry
  files : List SnapshotFileObject
  root : Text
  version : ℕ
  deriving DecidableEq, Repr

namespace StoreM

/-- A result that changes nothing. -/
def ofExcept {α : Type} (result : Except WorkspaceError α) : StoreM α :=
  ExceptT.mk (pure (result.mapError .workspace))

def reject {α : Type} (kind : WorkspaceErrorKind) (message : String) : StoreM α :=
  throw (.workspace ⟨kind, message⟩)

/-- Reads the clock. -/
def currentTime : StoreM ℕ := do
  let reading := (← get).clock 0
  modify fun r => { r with clock := r.clock.rest }
  ofExcept (nonNegativeTime reading)

/-- Stores a file. -/
def setFile (key : Text) (record : StoreFile) : StoreM Unit :=
  modify fun r => { r with store := { r.store with files := r.store.files.set key record } }

/-- Stores a directory. -/
def setDirectory (key : Text) (record : StoreDirectory) : StoreM Unit :=
  modify fun r =>
    { r with store := { r.store with directories := r.store.directories.set key record } }

/-- Removes the file of a key. -/
def deleteFileKey (key : Text) : StoreM Unit :=
  modify fun r => { r with store := { r.store with files := r.store.files.delete key } }

def setStore (store : Store) : StoreM Unit := modify fun r => { r with store := store }

end StoreM

namespace StoreMethod

open StoreM

/-- The bytes of a content. -/
def toBytes : FileContent → Except WorkspaceError Bytes
  | .text text => .ok (encodeText text)
  | .bytes bytes => .ok bytes
  | .other => .error ⟨.invalidContent, "workspace file content must be bytes"⟩

/-- Both engines write the same text. -/
def bytesToBase64 (bytes : Bytes) : Text := Base64.encode bytes

/-- The bytes of a text in base 64. -/
def base64ToBytes (engine : Base64Engine) (value : Text) : Except StoreFault Bytes :=
  match engine with
  | .buffer => .ok (Base64.lenientDecode value)
  | .window =>
      match Base64.forgivingDecode value with
      | some bytes => .ok bytes
      | none => .error (.dom "InvalidCharacterError")

/-- The path below the target. -/
def replacePathPrefix (path source target : Text) : Text :=
  if path = source then target else target ++ '/' :: path.drop (source.length + 1)

/-- Writes a file. -/
def writeFile (path : Text) (content : FileContent) : StoreM WorkspaceStat := do
  let key ← ofExcept (normalizeWorkspacePath path)
  let store := (← get).store
  if key = [] then reject .invalidPath "workspace file path is required"
  else if store.directories.has key = true then reject .notFile "workspace path is a directory"
  else do
    ofExcept (store.requireParentDirectory key)
    let bytes ← ofExcept (toBytes content)
    let mtimeMs ← currentTime
    let record : StoreFile := ⟨bytes, mtimeMs, workspacePath key⟩
    setFile key record
    return publicFileStat (workspacePath key) record

/-- Deletes a file. -/
def deleteFile (path : Text) : StoreM Unit := do
  let key ← ofExcept (normalizeWorkspacePath path)
  let store := (← get).store
  if store.files.has key = true then deleteFileKey key
  else if store.directories.has key = true then reject .notFile "workspace path is a directory"
  else reject .notFound "workspace file is unavailable"

/-- One round of the loop of `ensureDirectory`. -/
def ensurePart (current : Text) : StoreM Unit := do
  let store := (← get).store
  if store.files.has current = true then reject .notDirectory "workspace path is a file"
  else if store.directories.has current = true then pure ()
  else do
    let mtimeMs ← currentTime
    setDirectory current (directoryRecord (workspacePreopenPath ++ '/' :: current) mtimeMs)

/-- Creates the directories below `current` that are not there. -/
def ensureDirectoryFrom (current : Text) : List Text → StoreM Unit
  | [] => pure ()
  | part :: parts => do
      ensurePart (joinKey current part)
      ensureDirectoryFrom (joinKey current part) parts

def ensureDirectory (path : Text) : StoreM Unit :=
  ensureDirectoryFrom [] ((path.splitOn '/').filter (· ≠ []))

/-- `publicDirectoryStat` of the directory at a key. -/
def directoryStat (key : Text) : StoreM WorkspaceStat := do
  return publicDirectoryStat (workspacePath key)
    (((← get).store.directories.get key).getD ⟨0, []⟩)

/-- Creates a directory. -/
def createDirectory (path : Text) (recursive : Bool) : StoreM WorkspaceStat := do
  let key ← ofExcept (normalizeWorkspacePath path)
  let store := (← get).store
  if key = [] then directoryStat key
  else if store.files.has key = true then reject .notDirectory "workspace path is a file"
  else if recursive then do
    ensureDirectory key
    directoryStat key
  else do
    ofExcept (store.requireParentDirectory key)
    if store.directories.has key = true then
      reject .alreadyExists "workspace directory already exists"
    else do
      let mtimeMs ← currentTime
      setDirectory key (directoryRecord (workspacePath key) mtimeMs)
      directoryStat key

/-- Deletes a directory. -/
def deleteDirectory (path : Text) (recursive : Bool) : StoreM Unit := do
  let key ← ofExcept (normalizeWorkspacePath path)
  let store := (← get).store
  if key = [] then reject .invalidPath "workspace root cannot be deleted"
  else if store.directories.has key = false then
    reject .notFound "workspace directory is unavailable"
  else if recursive = false ∧ store.hasChildren key = true then
    reject .notEmpty "workspace directory is not empty"
  else setStore (store.deleteDirectoryTree key)

/-- One round of the loop over the directories of `renameDirectory`. -/
def moveDirectoryEntry (source target : Text) (moved : OrdMap Text StoreDirectory)
    (entry : Text × StoreDirectory) : StoreM (OrdMap Text StoreDirectory) :=
  if entry.1 = source ∨ isChildPath source entry.1 = true then do
    let movedPath := replacePathPrefix entry.1 source target
    let mtimeMs ← currentTime
    return moved.set movedPath ⟨mtimeMs, workspacePath movedPath⟩
  else return moved.set entry.1 entry.2

/-- One round of the loop over the files of `renameDirectory`. -/
def moveFileEntry (source target : Text) (moved : OrdMap Text StoreFile)
    (entry : Text × StoreFile) : StoreM (OrdMap Text StoreFile) :=
  if isChildPath source entry.1 = true then do
    let movedPath := replacePathPrefix entry.1 source target
    let mtimeMs ← currentTime
    return moved.set movedPath
      { entry.2 with mtimeMs := mtimeMs, path := workspacePreopenPath ++ '/' :: movedPath }
  else return moved.set entry.1 entry.2

/-- Moves a directory. -/
def renameDirectory (source target : Text) : StoreM Unit := do
  let store := (← get).store
  if target = source then pure ()
  else if isChildPath source target = true then
    reject .invalidPath "workspace directory cannot be moved inside itself"
  else do
    let movedDirectories ←
      store.directories.entries.foldlM (moveDirectoryEntry source target) OrdMap.empty
    let movedFiles ← store.files.entries.foldlM (moveFileEntry source target) OrdMap.empty
    setStore ⟨movedDirectories, movedFiles⟩

/-- Moves a file or a directory. -/
def rename (fromPath toPath : Text) : StoreM Unit := do
  let source ← ofExcept (normalizeWorkspacePath fromPath)
  let target ← ofExcept (normalizeWorkspacePath toPath)
  let store := (← get).store
  if source = [] ∨ target = [] then reject .invalidPath "workspace rename path is required"
  else do
    ofExcept (store.requireParentDirectory target)
    if store.files.has target = true ∨ store.directories.has target = true then
      reject .alreadyExists "workspace target already exists"
    else
      match store.files.get source with
      | some record => do
          -- the file is taken away before its new time is known
          deleteFileKey source
          let mtimeMs ← currentTime
          setFile target { record with mtimeMs := mtimeMs, path := workspacePath target }
      | none =>
          if store.directories.has source = true then renameDirectory source target
          else reject .notFound "workspace source is unavailable"

/-- The snapshot of a store. -/
def exportSnapshot (localeLe : Text → Text → Bool) (store : Store) : SnapshotObject where
  directories :=
    (store.directories.values.map fun record =>
      (⟨some record.mtimeMs, record.path⟩ : SnapshotDirectoryEntry)).mergeSort
        fun left right => localeLe left.path right.path
  files :=
    (store.files.values.map fun record =>
      (⟨bytesToBase64 record.content, some record.mtimeMs, record.path, record.content.length⟩ :
        SnapshotFileObject)).mergeSort fun left right => localeLe left.path right.path
  root := workspacePreopenPath
  version := 1

/-- The key and the record of a file of a snapshot object. -/
def loadFileObject (engine : Base64Engine) (entry : SnapshotFileObject) :
    Except StoreFault (Text × StoreFile) := do
  let key ← (normalizeWorkspacePath entry.path).mapError .workspace
  if key = [] then .error (.workspace ⟨.invalidSnapshot, "workspace file path is required"⟩)
  else
    let content ← base64ToBytes engine entry.contentBase64
    let mtimeMs ← (nonNegativeTime entry.mtimeMs).mapError .workspace
    return (key, ⟨content, mtimeMs, workspacePath key⟩)

/-- `none`: the snapshot is no object. -/
def loadSnapshot (engine : Base64Engine) (snapshot : Option SnapshotObject) : StoreM Unit := do
  let mtimeMs ← currentTime
  match snapshot with
  | none => reject .invalidSnapshot "workspace snapshot must be an object"
  | some snapshot =>
    if snapshot.version ≠ 1 ∨ snapshot.root ≠ workspacePreopenPath then
      reject .invalidSnapshot "workspace snapshot version is unsupported"
    else do
      let directories ← ofExcept (snapshot.directories.mapM Store.loadDirectory)
      let files ← ExceptT.mk (pure (snapshot.files.mapM (loadFileObject engine)))
      let next : Store :=
        ⟨(OrdMap.empty.set [] (directoryRecord [] mtimeMs)).setAll directories, OrdMap.ofList files⟩
      ofExcept (validateWorkspaceGraph next.files next.directories)
      setStore next

end StoreMethod

/-- A call of a method that changes the store. -/
inductive StoreOp
  | writeFile (path : Text) (content : FileContent)
  | deleteFile (path : Text)
  | createDirectory (path : Text) (recursive : Bool)
  | deleteDirectory (path : Text) (recursive : Bool)
  | rename (fromPath toPath : Text)
  | importSnapshot (snapshot : Option SnapshotObject)

/-- A call with what the clock gives while it runs. -/
structure ClockedOp where
  clock : Clock
  op : StoreOp

namespace Store

variable (engine : Base64Engine)

/-- Runs an operation. -/
def runOp : StoreOp → StoreM Unit
  | .writeFile path content => do let _ ← StoreMethod.writeFile path content
  | .deleteFile path => StoreMethod.deleteFile path
  | .createDirectory path recursive => do let _ ← StoreMethod.createDirectory path recursive
  | .deleteDirectory path recursive => StoreMethod.deleteDirectory path recursive
  | .rename fromPath toPath => StoreMethod.rename fromPath toPath
  | .importSnapshot snapshot => StoreMethod.loadSnapshot engine snapshot

/-- How a call ends, and the store after it. -/
def callOp (s : Store) (o : ClockedOp) : Except StoreFault Unit × StoreRun :=
  runOp engine o.op ⟨s, o.clock⟩

def stepOp (s : Store) (o : ClockedOp) : Store := (s.callOp engine o).2.store

/-- The constructor. `snapshot` is `none` where the options have none. -/
def newStore (clock : Clock) (snapshot : Option (Option SnapshotObject)) :
    Except StoreFault Store := do
  let now ← (nonNegativeTime (clock 0)).mapError .workspace
  match snapshot with
  | none => return empty now
  | some snapshot =>
    match StoreMethod.loadSnapshot engine snapshot ⟨empty now, clock.rest⟩ with
    | (.ok _, run) => return run.store
    | (.error fault, _) => .error fault

end Store

end WasmHost

import Mathlib.Data.List.Sort
import WasmHost.Lib.NameTree
import WasmHost.Web.Values

/-!
# Directories of the SDK

How `wasmer-sdk-adapter` puts the snapshot of a workspace into a `Directory` of the SDK and reads it
out again. The SDK is not part of the repository: a directory is a type with the four operations
that the adapter calls, which may fail with the text of an error.

* `snapshotToWasmerDirectory`, `wasmerDirectoryToSnapshot`: the two ways.
* `SdkDirectory.BehavesAsFileTree`: what the adapter relies on.
-/

namespace WasmHost

/-! ### Paths -/

/-- A part of a path that is kept. -/
def IsPathName (part : Text) : Prop :=
  part ≠ [] ∧ part ≠ ['.'] ∧ part ≠ ['.', '.'] ∧ '/' ∉ part

/-- Names can be recognised. -/
instance (part : Text) : Decidable (IsPathName part) := inferInstanceAs (Decidable (_ ∧ _))

/-- A name that `PathString` takes. -/
abbrev PathName := { part : Text // IsPathName part }

/-- There is a name. -/
instance : Inhabited PathName := ⟨"a".toList, by decide⟩

/-- A path in normal form, by its names. -/
abbrev AbsolutePath := List PathName

/-- The text of a path. -/
def AbsolutePath.text (path : AbsolutePath) : Text :=
  '/' :: ['/'].intercalate (path.map Subtype.val)

/-- A `WasmHostSdkAdapterError`. -/
structure AdapterError where
  kind : String
  message : Text

/-- The loop over the parts of a path. A part has no slash, so that only `..` is refused. -/
def keptNames : List Text → Option AbsolutePath
  | [] => some []
  | part :: rest =>
    if part = [] ∨ part = ['.'] then keptNames rest
    else if h : IsPathName part then (keptNames rest).map (⟨part, h⟩ :: ·)
    else none

/-- A text that is not empty. -/
def sdkNonEmptyString (value : Option Text) (field : String) : Except AdapterError Text :=
  match value with
  | some (c :: cs) => .ok (c :: cs)
  | _ => .error ⟨"invalid_request", field.toList ++ " must be a non-empty string".toList⟩

/-- The path of a text. -/
def normalizeAbsolutePath (value : Option Text) (field : String) :
    Except AdapterError AbsolutePath := do
  let path ← sdkNonEmptyString value field
  if path.head? ≠ some '/' then
    .error ⟨"invalid_path", field.toList ++ " must be absolute".toList⟩
  else
    match keptNames (path.splitOn '/') with
    | some names => return names
    | none => .error ⟨"invalid_path", field.toList ++ " must not contain ..".toList⟩

/-- A path below a directory. -/
def joinAbsolute (base : AbsolutePath) (name : Text) : Except AdapterError AbsolutePath := do
  let name ← sdkNonEmptyString (some name) "directory entry name"
  normalizeAbsolutePath (some ((if base = [] then [] else base.text) ++ '/' :: name))
    "directory entry path"

/-! ### Snapshots -/

/-- An entry of a snapshot as it is given; what is missing has a default. -/
structure EntryValue where
  type : Option Text
  path : Option Text
  bytes : Option ChunkValue
  contents : Option ChunkValue

/-- One entry of an adapter snapshot. -/
abbrev SnapshotEntry := TreeItem PathName Bytes

/-- The bytes of a value. -/
def bytesParam (value : ChunkValue) (field : String) : Except AdapterError Bytes :=
  match toUint8Array value with
  | .ok bytes => .ok bytes
  | .error _ => .error ⟨"invalid_bytes", field.toList ++ " must be bytes or string".toList⟩

/-- An entry that is given. -/
def normalizeSnapshotEntry (value : EntryValue) : Except AdapterError SnapshotEntry := do
  let type := value.type.getD "file".toList
  if type ≠ "file".toList ∧ type ≠ "directory".toList then
    .error ⟨"invalid_workspace_snapshot",
      "invalid workspace snapshot entry type: ".toList ++ type⟩
  else
    let path ← normalizeAbsolutePath value.path "workspace entry path"
    if type = "directory".toList then return ⟨path, .directory⟩
    else
      let bytes ← bytesParam ((value.bytes.or value.contents).getD (.text []))
        "workspace entry bytes"
      return ⟨path, .file bytes⟩

/-- The entries that are given. -/
def normalizeWorkspaceSnapshot (snapshot : List EntryValue) :
    Except AdapterError (List SnapshotEntry) :=
  snapshot.mapM normalizeSnapshotEntry

/-! ### The SDK -/

/-- An entry that `readDir` lists. -/
structure DirectoryEntry where
  name : Text
  type : Text

/-- The operations on a `Directory`. -/
structure SdkDirectory (σ : Type) where
  new : σ
  createDir : σ → AbsolutePath → Except Text σ
  writeFile : σ → AbsolutePath → Bytes → Except Text σ
  readDir : σ → AbsolutePath → Except Text (List DirectoryEntry)
  readFile : σ → AbsolutePath → Except Text Bytes

/-- `/exist|already/i`. -/
def isAlreadyExistsError (message : Text) : Bool :=
  ["exist", "already"].any fun word => word.toList <:+: toAsciiLowercase message

/-- What the adapter or the SDK throws; `depth` stands for a recursion without end. -/
inductive SnapshotFailure
  | adapter (error : AdapterError)
  | sdk (message : Text)
  | depth

variable {σ : Type} (d : SdkDirectory σ)

/-- The loop of `ensureDirectory` over the parts of a path. -/
def ensureDirectories (s : σ) (current : AbsolutePath) : List PathName → Except SnapshotFailure σ
  | [] => .ok s
  | part :: rest =>
    match d.createDir s (current ++ [part]) with
    | .ok created => ensureDirectories created (current ++ [part]) rest
    | .error message =>
      if isAlreadyExistsError message = true then ensureDirectories s (current ++ [part]) rest
      else .error (.sdk message)

def ensureDirectory (s : σ) (path : AbsolutePath) : Except SnapshotFailure σ :=
  ensureDirectories d s [] path

/-- One entry of the loop of `snapshotToWasmerDirectory`. -/
def putEntry (s : σ) (entry : SnapshotEntry) : Except SnapshotFailure σ :=
  match entry.node with
  | .directory => ensureDirectory d s entry.path
  | .file bytes => do
    let ensured ← ensureDirectory d s entry.path.dropLast
    (d.writeFile ensured entry.path bytes).mapError .sdk

/-- A directory with the entries of a snapshot. -/
def snapshotToWasmerDirectory (snapshot : List EntryValue) : Except SnapshotFailure σ := do
  let entries ← (normalizeWorkspaceSnapshot snapshot).mapError .adapter
  entries.foldlM (putEntry d) d.new

/-- The recursion stops at a given depth. -/
def collectDirectorySnapshot (s : σ) :
    ℕ → AbsolutePath → Except SnapshotFailure (List SnapshotEntry)
  | 0, _ => .error .depth
  | depth + 1, path =>
    match d.readDir s path with
    | .error message =>
      if path ≠ [] then do
        let bytes ← (d.readFile s path).mapError .sdk
        return [⟨path, .file bytes⟩]
      else .error (.sdk message)
    | .ok entries => do
      let below ← entries.mapM fun entry => do
        let entryPath ← (joinAbsolute path entry.name).mapError .adapter
        if entry.type = "dir".toList ∨ entry.type = "directory".toList then
          collectDirectorySnapshot s depth entryPath
        else if entry.type = "file".toList then do
          let bytes ← (d.readFile s entryPath).mapError .sdk
          return [⟨entryPath, .file bytes⟩]
        else return []
      return (if path = [] then [] else [⟨path, .directory⟩]) ++ below.flatten

/-- The type of an entry. -/
def SnapshotEntry.typeText (entry : SnapshotEntry) : Text :=
  match entry.node with
  | .directory => "directory".toList
  | .file _ => "file".toList

variable (localeCompare : Text → Text → Ordering)

/-- Entries go by path, then by type. -/
def compareSnapshotEntries (a b : SnapshotEntry) : Ordering :=
  (localeCompare (AbsolutePath.text a.path) (AbsolutePath.text b.path)).then
    (localeCompare (SnapshotEntry.typeText a) (SnapshotEntry.typeText b))

/-- The snapshot of a directory. -/
def wasmerDirectoryToSnapshot (depth : ℕ) (s : σ) :
    Except SnapshotFailure (List SnapshotEntry) := do
  let snapshot ← collectDirectorySnapshot d s depth []
  return snapshot.mergeSort fun a b => (compareSnapshotEntries localeCompare a b).isLE

/-! ### What the adapter relies on -/

/-- The text of the type of an entry that is listed. -/
def HasTypeText (node : TreeNode Bytes) (type : Text) : Prop :=
  match node with
  | .directory => type = "dir".toList ∨ type = "directory".toList
  | .file _ => type = "file".toList

/-- The directory is a tree of files, and does what it does by that tree. The text of the error for
a directory that has no directory above it may name the path. -/
structure SdkDirectory.BehavesAsFileTree (tree : σ → NameTree PathName Bytes)
    (orphanText : AbsolutePath → Text) : Prop where
  new : tree d.new = .empty
  createDir_exists : ∀ s path, (tree s).node path ≠ none →
    ∃ message, d.createDir s path = .error message ∧ isAlreadyExistsError message = true
  createDir_new : ∀ s path, (tree s).node path = none →
    (tree s).node path.dropLast = some .directory →
      ∃ created, d.createDir s path = .ok created ∧ (tree created).node path = some .directory ∧
        ∀ q, q ≠ path → (tree created).node q = (tree s).node q
  createDir_orphan : ∀ s path, (tree s).node path = none →
    (tree s).node path.dropLast ≠ some .directory →
      d.createDir s path = .error (orphanText path)
  writeFile_ok : ∀ s path bytes, (tree s).node path.dropLast = some .directory →
    (tree s).node path ≠ some .directory →
      ∃ written, d.writeFile s path bytes = .ok written ∧
        (tree written).node path = some (.file bytes) ∧
          ∀ q, q ≠ path → (tree written).node q = (tree s).node q
  writeFile_fails : ∀ s path bytes, (tree s).node path.dropLast ≠ some .directory ∨
    (tree s).node path = some .directory → ∃ message, d.writeFile s path bytes = .error message
  readDir_ok : ∀ s path, (tree s).node path = some .directory →
    ∃ entries, d.readDir s path = .ok entries ∧ (entries.map DirectoryEntry.name).Nodup ∧
      (∀ entry ∈ entries, ∃ name node, (tree s).node (path ++ [name]) = some node ∧
        entry.name = name.1 ∧ HasTypeText node entry.type) ∧
      ∀ name, (tree s).node (path ++ [name]) ≠ none → ∃ entry ∈ entries, entry.name = name.1
  readDir_fails : ∀ s path, (tree s).node path ≠ some .directory →
    ∃ message, d.readDir s path = .error message
  reads_same : ∀ s s', tree s = tree s' → d.readDir s = d.readDir s' ∧ d.readFile s = d.readFile s'
  readFile_ok : ∀ s path bytes, (tree s).node path = some (.file bytes) →
    d.readFile s path = .ok bytes

end WasmHost

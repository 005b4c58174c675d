import WasmHost.Wasi.ReturnedWorkspace

/-!
# The workspace as a snapshot

`exportWasiWorkspaceSnapshot` spells the workspace out as a snapshot: every directory with the
timestamp 0, and every file that is not the package's. What the store makes of it depends on the
names, which it normalizes in its own way, and on the directories, which have to be there.

* `Host.loadSnapshot_export_iff`: when names survive, the snapshot is accepted exactly when the
  exported files and the directories are a tree, and the store is that tree.
-/

namespace WasmHost

open OrdMap

namespace Host

variable (host : Host) {localeLe : Text → Text → Bool} {record : FileRecord}

/-- The map of files that the workspace record holds. -/
def workspaceFiles : OrdMap Text ℕ := host.fileMaps.get host.workspace.files

/-- The set of directories that the workspace record holds. -/
def workspaceDirs : OrdSet Text := host.dirSets.get host.workspace.dirs

/-- The file object under a key of the workspace record. -/
def workspaceFile (k : Text) : Option FileRecord := (host.workspaceFiles.get k).map host.records.get

/-- The file of the guest under a key. -/
def exportedFile (k : Text) : Option FileRecord :=
  (host.workspaceFile k).filter fun record => !record.fallback

/-- A file as it is exported. -/
def exportedEntry (record : FileRecord) : SnapshotFileEntry :=
  ⟨record.bytes, some (record.mtimeMs.getD 0), workspacePath (record.path.getD []),
    record.bytes.length⟩

/-- The snapshot of a workspace. -/
def exportWasiWorkspaceSnapshot (localeLe : Text → Text → Bool) : Snapshot where
  directories :=
    (host.workspaceDirs.keys.map fun path =>
      (⟨some 0, workspacePath path⟩ : SnapshotDirectoryEntry)).mergeSort
        fun left right => localeLe left.path right.path
  files :=
    (((host.workspaceFiles.values.map host.records.get).filter fun file => !file.fallback).map
      exportedEntry).mergeSort fun left right => localeLe left.path right.path
  root := workspacePreopenPath
  version := 1

/-- Every object of the workspace record carries its key. -/
def Named : Prop := ∀ k record, host.workspaceFile k = some record → record.path = some k

/-- The names and the timestamps of what is exported survive the store. -/
structure Spelled : Prop where
  directory : ∀ k, host.workspaceDirs.has k = true → StoreStable k
  file : ∀ k record, host.exportedFile k = some record → StoreStable k ∧
    record.mtimeMs.getD 0 < 2 ^ 53

/-- What is exported is a tree. -/
structure Treelike : Prop where
  kinds : ∀ k record, host.exportedFile k = some record → k ≠ [] ∧ host.workspaceDirs.has k = false
  fileParent : ∀ k record, host.exportedFile k = some record →
    parentPath k = [] ∨ host.workspaceDirs.has (parentPath k) = true
  directoryParent : ∀ k, host.workspaceDirs.has k = true →
    parentPath k = [] ∨ host.workspaceDirs.has (parentPath k) = true

/-- The store holds what is exported; the root is always there. -/
structure StoredIn (store : Store) : Prop where
  files : ∀ k, store.files.get k = (host.exportedFile k).map fun record =>
    ⟨record.bytes, record.mtimeMs.getD 0, workspacePath k⟩
  directories : ∀ k, host.workspaceDirs.has k = true →
    store.directories.get k = some ⟨0, workspacePath k⟩
  directory_iff : ∀ k, store.directories.has k = true ↔ k = [] ∨ host.workspaceDirs.has k = true

variable {host}

theorem mem_directories_export {entry : SnapshotDirectoryEntry} :
    entry ∈ (host.exportWasiWorkspaceSnapshot localeLe).directories ↔
      ∃ k, host.workspaceDirs.has k = true ∧ entry = ⟨some 0, workspacePath k⟩ := by
  rw [exportWasiWorkspaceSnapshot, List.mem_mergeSort, List.mem_map]
  constructor
  · rintro ⟨k, hk, rfl⟩
    exact ⟨k, (mem_keys _ _).1 hk, rfl⟩
  · rintro ⟨k, hk, rfl⟩
    exact ⟨k, (mem_keys _ _).2 hk, rfl⟩

variable {k : Text}

theorem exportedFile_eq_some_iff :
    host.exportedFile k = some record ↔
      host.workspaceFile k = some record ∧ record.fallback = false := by
  simp [exportedFile, Option.filter_eq_some_iff]

/-- The exported files are the guest's, spelled by their keys. -/
theorem mem_files_export (hnamed : host.Named) {entry : SnapshotFileEntry} :
    entry ∈ (host.exportWasiWorkspaceSnapshot localeLe).files ↔
      ∃ k record, host.exportedFile k = some record ∧
        entry = ⟨record.bytes, some (record.mtimeMs.getD 0), workspacePath k,
          record.bytes.length⟩ := by
  rw [exportWasiWorkspaceSnapshot, List.mem_mergeSort, List.mem_map]
  simp only [List.mem_filter, List.mem_map, mem_values, Bool.not_eq_true']
  constructor
  · rintro ⟨record, ⟨⟨r, ⟨k, hk⟩, rfl⟩, hfallback⟩, rfl⟩
    have hfile : host.workspaceFile k = some (host.records.get r) := by
      rw [workspaceFile, hk]
      rfl
    refine ⟨k, _, exportedFile_eq_some_iff.2 ⟨hfile, hfallback⟩, ?_⟩
    rw [exportedEntry, hnamed k _ hfile]
    rfl
  · rintro ⟨k, record, hk, rfl⟩
    obtain ⟨hfile, hfallback⟩ := exportedFile_eq_some_iff.1 hk
    obtain ⟨r, hr, hrecord⟩ := Option.map_eq_some_iff.1 hfile
    refine ⟨record, ⟨⟨r, ⟨k, hr⟩, hrecord⟩, hfallback⟩, ?_⟩
    rw [exportedEntry, hnamed k record hfile]
    rfl

theorem nonNegativeTime_natCast {time : ℕ} (h : time < 2 ^ 53) :
    nonNegativeTime (some (time : Int)) = .ok time := by
  have hbounds : 0 ≤ (time : Int) ∧ (time : Int) < 2 ^ 53 := by omega
  unfold nonNegativeTime
  dsimp only
  rw [if_pos hbounds, Int.toNat_natCast]

/-- An exported directory is loaded under its own key. -/
theorem loadDirectory_export (hk : StoreStable k) :
    Store.loadDirectory ⟨some 0, workspacePath k⟩ = .ok (k, ⟨0, workspacePath k⟩) :=
  Store.loadDirectory_eq_ok_iff.2 ⟨hk, rfl, rfl⟩

/-- An exported file is loaded under its own key, unless that is the root. -/
theorem loadFile_export (hk : StoreStable k) (htime : record.mtimeMs.getD 0 < 2 ^ 53)
    {loaded : Text × StoreFile} :
    Store.loadFile ⟨record.bytes, some (record.mtimeMs.getD 0), workspacePath k,
        record.bytes.length⟩ = .ok loaded ↔
      k ≠ [] ∧ loaded = (k, ⟨record.bytes, record.mtimeMs.getD 0, workspacePath k⟩) := by
  obtain ⟨key, file⟩ := loaded
  rw [Store.loadFile_eq_ok_iff]
  dsimp only
  rw [show normalizeWorkspacePath (workspacePath k) = .ok k from hk, nonNegativeTime_natCast htime]
  constructor
  · rintro ⟨hkey, hne, hcontent, hmtime, hpath⟩
    obtain rfl := Except.ok.inj hkey
    refine ⟨hne, ?_⟩
    rw [← hcontent, Except.ok.inj hmtime, ← hpath]
  · rintro ⟨hne, heq⟩
    obtain ⟨rfl, rfl⟩ := Prod.mk.inj heq
    exact ⟨rfl, hne, rfl, rfl, rfl⟩

section

variable (hnamed : host.Named) (hspelled : host.Spelled) {localeLe : Text → Text → Bool}
include hspelled

theorem mem_of_mapM_loadDirectory {directories : List (Text × StoreDirectory)}
    (h : (host.exportWasiWorkspaceSnapshot localeLe).directories.mapM Store.loadDirectory =
      .ok directories) {record : StoreDirectory} :
    (k, record) ∈ directories ↔
      host.workspaceDirs.has k = true ∧ record = ⟨0, workspacePath k⟩ := by
  constructor
  · intro hmem
    obtain ⟨entry, hentry, hload⟩ := Except.exists_of_mem_mapM h hmem
    obtain ⟨j, hj, rfl⟩ := mem_directories_export.1 hentry
    rw [loadDirectory_export (hspelled.directory j hj)] at hload
    obtain ⟨rfl, rfl⟩ := Prod.mk.inj (Except.ok.inj hload)
    exact ⟨hj, rfl⟩
  · rintro ⟨hk, rfl⟩
    obtain ⟨loaded, hmem, hload⟩ := Except.exists_of_mem_of_mapM h
      (mem_directories_export.2 ⟨k, hk, rfl⟩)
    rw [loadDirectory_export (hspelled.directory k hk)] at hload
    rwa [Except.ok.inj hload]

include hnamed

theorem mem_of_mapM_loadFile {files : List (Text × StoreFile)}
    (h : (host.exportWasiWorkspaceSnapshot localeLe).files.mapM Store.loadFile = .ok files)
    {file : StoreFile} :
    (k, file) ∈ files ↔ ∃ record, host.exportedFile k = some record ∧ k ≠ [] ∧
      file = ⟨record.bytes, record.mtimeMs.getD 0, workspacePath k⟩ := by
  constructor
  · intro hmem
    obtain ⟨entry, hentry, hload⟩ := Except.exists_of_mem_mapM h hmem
    obtain ⟨j, record, hj, rfl⟩ := (mem_files_export hnamed).1 hentry
    obtain ⟨hstable, htime⟩ := hspelled.file j record hj
    obtain ⟨hne, heq⟩ := (loadFile_export hstable htime).1 hload
    obtain ⟨rfl, rfl⟩ := Prod.mk.inj heq
    exact ⟨record, hj, hne, rfl⟩
  · rintro ⟨record, hk, hne, rfl⟩
    obtain ⟨hstable, htime⟩ := hspelled.file k record hk
    obtain ⟨loaded, hmem, hload⟩ := Except.exists_of_mem_of_mapM h
      ((mem_files_export hnamed).2 ⟨k, record, hk, rfl⟩)
    rwa [((loadFile_export hstable htime).1 hload).2] at hmem

/-- A store that has accepted the export holds exactly what was exported. -/
theorem storedIn_of_loadSnapshot {now : ℕ} {store : Store}
    (h : Store.loadSnapshot now (host.exportWasiWorkspaceSnapshot localeLe) = .ok store) :
    host.StoredIn store := by
  obtain ⟨-, directories, files, hdirectories, hfiles, rfl, -⟩ := Store.loadSnapshot_eq_ok_iff.1 h
  have hfile : ∀ k file, (k, file) ∈ files ↔ ∃ record, host.exportedFile k = some record ∧
      k ≠ [] ∧ file = ⟨record.bytes, record.mtimeMs.getD 0, workspacePath k⟩ :=
    fun k file => mem_of_mapM_loadFile hnamed hspelled hfiles
  have hdir : ∀ k record, (k, record) ∈ directories ↔
      host.workspaceDirs.has k = true ∧ record = ⟨0, workspacePath k⟩ :=
    fun k record => mem_of_mapM_loadDirectory hspelled hdirectories
  have hunique : ∀ k a b, (k, a) ∈ files → (k, b) ∈ files → a = b := by
    intro k a b ha hb
    obtain ⟨record, hrecord, -, rfl⟩ := (hfile k a).1 ha
    obtain ⟨record', hrecord', -, rfl⟩ := (hfile k b).1 hb
    rw [Option.some.inj (hrecord.symm.trans hrecord')]
  refine ⟨fun k => Option.ext fun file => ?_, fun k hk => ?_, fun k => ?_⟩
  · rw [get_ofList files hunique, hfile, Option.map_eq_some_iff]
    constructor
    · rintro ⟨record, hrecord, -, rfl⟩
      exact ⟨record, hrecord, rfl⟩
    · rintro ⟨record, hrecord, rfl⟩
      -- every exported file was loaded, so that none is the root
      obtain ⟨hstable, htime⟩ := hspelled.file k record hrecord
      obtain ⟨loaded, -, hload⟩ := Except.exists_of_mem_of_mapM hfiles
        ((mem_files_export hnamed).2 ⟨k, record, hrecord, rfl⟩)
      exact ⟨record, hrecord, ((loadFile_export hstable htime).1 hload).1, rfl⟩
  · refine get_setAll_of_mem _ _ ((hdir k _).2 ⟨hk, rfl⟩) fun record hrecord => ?_
    exact ((hdir k record).1 hrecord).2
  · rw [has_setAll]
    have hmem : k ∈ directories.map Prod.fst ↔ host.workspaceDirs.has k = true := by
      constructor
      · intro hk
        obtain ⟨e, he, rfl⟩ := List.mem_map.1 hk
        exact ((hdir e.1 e.2).1 he).1
      · intro hk
        exact List.mem_map.2 ⟨_, (hdir k _).2 ⟨hk, rfl⟩, rfl⟩
    rw [hmem]
    simp [or_comm]

/-- When names survive, exactly the trees are accepted. -/
theorem loadSnapshot_export_iff (now : ℕ) :
    (∃ store, Store.loadSnapshot now (host.exportWasiWorkspaceSnapshot localeLe) = .ok store) ↔
      host.Treelike := by
  constructor
  · rintro ⟨store, h⟩
    have hstored := storedIn_of_loadSnapshot hnamed hspelled h
    have hvalid := Store.valid_loadSnapshot h
    have hhas : ∀ k record, host.exportedFile k = some record → store.files.has k = true := by
      intro k record hk
      rw [has_iff, hstored.files, hk]
      exact ⟨_, rfl⟩
    refine ⟨fun k record hk => ?_, fun k record hk => ?_, fun k hk => ?_⟩
    · have hdisjoint := hvalid.disjoint k (hhas k record hk)
      rw [← Bool.not_eq_true, hstored.directory_iff, not_or, Bool.not_eq_true] at hdisjoint
      exact hdisjoint
    · exact (hstored.directory_iff _).1 (hvalid.fileParent k (hhas k record hk))
    · exact (hstored.directory_iff _).1
        (hvalid.directoryParent k ((hstored.directory_iff k).2 (.inr hk)))
  · intro htree
    obtain ⟨directories, hdirectories⟩ : ∃ directories,
        (host.exportWasiWorkspaceSnapshot localeLe).directories.mapM Store.loadDirectory =
          .ok directories := by
      refine Except.exists_mapM_eq_ok fun entry hentry => ?_
      obtain ⟨k, hk, rfl⟩ := mem_directories_export.1 hentry
      exact ⟨_, loadDirectory_export (hspelled.directory k hk)⟩
    obtain ⟨files, hfiles⟩ : ∃ files,
        (host.exportWasiWorkspaceSnapshot localeLe).files.mapM Store.loadFile = .ok files := by
      refine Except.exists_mapM_eq_ok fun entry hentry => ?_
      obtain ⟨k, record, hk, rfl⟩ := (mem_files_export hnamed).1 hentry
      obtain ⟨hstable, htime⟩ := hspelled.file k record hk
      exact ⟨_, (loadFile_export hstable htime).2 ⟨(htree.kinds k record hk).1, rfl⟩⟩
    have hfileKey : ∀ k, (OrdMap.ofList files).has k = true →
        ∃ record, host.exportedFile k = some record := by
      intro k hk
      obtain ⟨e, he, rfl⟩ := List.mem_map.1 ((has_ofList _ _).1 hk)
      obtain ⟨record, hrecord, -⟩ := (mem_of_mapM_loadFile hnamed hspelled hfiles).1
        (show (e.1, e.2) ∈ files from he)
      exact ⟨record, hrecord⟩
    have hdirKey : ∀ k, ((OrdMap.empty.set [] (directoryRecord [] now)).setAll directories).has k =
        true ↔ k = [] ∨ host.workspaceDirs.has k = true := by
      intro k
      rw [has_setAll, or_comm]
      refine or_congr (by simp) ⟨fun hk => ?_, fun hk => ?_⟩
      · obtain ⟨e, he, rfl⟩ := List.mem_map.1 hk
        exact ((mem_of_mapM_loadDirectory hspelled hdirectories).1
          (show (e.1, e.2) ∈ directories from he)).1
      · exact List.mem_map.2 ⟨_, (mem_of_mapM_loadDirectory hspelled hdirectories).2 ⟨hk, rfl⟩, rfl⟩
    refine ⟨_, Store.loadSnapshot_eq_ok_iff.2 ⟨⟨rfl, rfl⟩, directories, files, hdirectories, hfiles,
      rfl, Store.validateWorkspaceGraph_eq_ok_iff.2 ⟨fun k hk => ?_, fun k hk => ?_,
        fun k hk hne => ?_⟩⟩⟩
    · obtain ⟨record, hrecord⟩ := hfileKey k hk
      rw [← Bool.not_eq_true, hdirKey, not_or, Bool.not_eq_true]
      exact htree.kinds k record hrecord
    · obtain ⟨record, hrecord⟩ := hfileKey k hk
      exact (hdirKey _).2 (htree.fileParent k record hrecord)
    · exact (hdirKey _).2 (htree.directoryParent k (((hdirKey k).1 hk).resolve_left hne))

end

end Host

end WasmHost

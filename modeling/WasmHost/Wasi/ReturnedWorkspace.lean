import WasmHost.Wasi.Records
import WasmHost.Workspace.Store

/-!
# The workspace after a child command

A child command that ran to its end has returned a snapshot, and the parent takes it over: the maps
of the workspace are filled again, the package files are put back where the snapshot has no file,
and the open descriptors are bound to the files that their paths name now. A writable descriptor
whose file is gone makes a new, empty one.

* `World.Restores`: the workspace is the snapshot with the untouched package files.
* `World.Fits`: the snapshot leaves room for the package files, and no writable descriptor is left
  without its file.
* `System.restores_iff`: the first holds afterwards exactly when the second holds before.
-/

namespace WasmHost

open OrdMap List

/-! ### Reading a snapshot -/

/-- A file of an exported snapshot under its key. -/
def readSnapshotFile (entry : SnapshotFileEntry) : Except WorkspaceError World.SnapshotFile := do
  let path ← normalizeWorkspacePath entry.path
  return ⟨path, entry.content, (entry.mtimeMs.getD 0).toNat⟩

/-- The entries of a snapshot as the mounts take them: it is loaded into a new store, exported, and
the paths of the export are read. -/
def readSnapshot (localeLe : Text → Text → Bool) (now : ℕ) (snapshot : Snapshot) :
    Except WorkspaceError World.SnapshotTree := do
  let memory ← Store.loadSnapshot now snapshot
  let normalizedSnapshot := memory.exportSnapshot localeLe
  let directories ← normalizedSnapshot.directories.mapM fun entry =>
    normalizeWorkspacePath entry.path
  let files ← normalizedSnapshot.files.mapM readSnapshotFile
  return ⟨directories, files⟩

variable {localeLe : Text → Text → Bool} {store : Store} {entry : SnapshotFileEntry}

/-- What a successful `readSnapshot` has read. -/
theorem readSnapshot_eq_ok_iff {now : ℕ} {snapshot : Snapshot} {t : World.SnapshotTree} :
    readSnapshot localeLe now snapshot = .ok t ↔
      ∃ store, Store.loadSnapshot now snapshot = .ok store ∧
        (store.exportSnapshot localeLe).directories.mapM
          (fun entry => normalizeWorkspacePath entry.path) = .ok t.directories ∧
        (store.exportSnapshot localeLe).files.mapM readSnapshotFile = .ok t.files := by
  unfold readSnapshot
  refine Except.bind_eq_ok_iff.trans (exists_congr fun store => and_congr_right fun _ => ?_)
  refine Except.bind_eq_ok_iff.trans ?_
  constructor
  · rintro ⟨directories, hdirectories, h⟩
    obtain ⟨files, hfiles, h⟩ := Except.bind_eq_ok_iff.1 h
    obtain rfl := Except.ok.inj h
    exact ⟨hdirectories, hfiles⟩
  · rintro ⟨hdirectories, hfiles⟩
    exact ⟨_, hdirectories, Except.bind_eq_ok_iff.2 ⟨_, hfiles, rfl⟩⟩

/-- The directories of an export are those of the store. -/
theorem Store.mem_directories_exportSnapshot {entry : SnapshotDirectoryEntry} :
    entry ∈ (store.exportSnapshot localeLe).directories ↔
      ∃ k record, store.directories.get k = some record ∧
        entry = ⟨some record.mtimeMs, record.path⟩ := by
  rw [exportSnapshot, mem_mergeSort, mem_map_values]

/-- The files of an export are those of the store. -/
theorem Store.mem_files_exportSnapshot :
    entry ∈ (store.exportSnapshot localeLe).files ↔
      ∃ k record, store.files.get k = some record ∧
        entry = ⟨record.content, some record.mtimeMs, record.path, record.content.length⟩ := by
  rw [exportSnapshot, mem_mergeSort, mem_map_values]

theorem readSnapshotFile_eq_ok_iff {file : World.SnapshotFile} :
    readSnapshotFile entry = .ok file ↔ normalizeWorkspacePath entry.path = .ok file.path ∧
      file.bytes = entry.content ∧ file.mtimeMs = (entry.mtimeMs.getD 0).toNat := by
  unfold readSnapshotFile
  refine Except.bind_eq_ok_iff.trans ?_
  constructor
  · rintro ⟨path, hpath, h⟩
    obtain rfl := Except.ok.inj h
    exact ⟨hpath, rfl, rfl⟩
  · rintro ⟨hpath, hbytes, hmtime⟩
    exact ⟨file.path, hpath, congrArg Except.ok (by rw [← hbytes, ← hmtime])⟩

namespace World

variable {localeLe : Text → Text → Bool} {now : ℕ} {snapshot : Snapshot} {k path : Text}
    {file : OpenFile} {fd : Int} {store : Store}

/-- The tree of a snapshot has a root. -/
theorem SnapshotTree.root_mem {t : SnapshotTree} (h : readSnapshot localeLe now snapshot = .ok t) :
    [] ∈ t.directories := by
  obtain ⟨store, hload, hdirectories, -⟩ := readSnapshot_eq_ok_iff.1 h
  have hvalid := Store.valid_loadSnapshot hload
  obtain ⟨record, hrecord⟩ := (has_iff _ _).1 hvalid.root
  obtain ⟨k, hk, hkey⟩ := Except.exists_of_mem_of_mapM hdirectories
    (Store.mem_directories_exportSnapshot.2 ⟨[], record, hrecord, rfl⟩)
  have hroot : normalizeWorkspacePath record.path = .ok [] := by
    rw [hvalid.directoryPath [] record hrecord]
    decide
  rwa [← Except.ok.inj (hkey.symm.trans hroot)]

/-- The entries of a snapshot are those of the store that has loaded it, when the store spells its
keys so that they are read back as they are. -/
theorem SnapshotTree.entries_of_stable {t : SnapshotTree}
    (hload : Store.loadSnapshot now snapshot = .ok store)
    (hstable : ∀ k, store.files.has k = true ∨ store.directories.has k = true → StoreStable k)
    (h : readSnapshot localeLe now snapshot = .ok t) :
    (∀ k, k ∈ t.directories ↔ store.directories.has k = true) ∧
      ∀ k bytes, (∃ file ∈ t.files, file.path = k ∧ file.bytes = bytes) ↔
        ∃ record, store.files.get k = some record ∧ record.content = bytes := by
  obtain ⟨store', hload', hdirectories, hfiles⟩ := readSnapshot_eq_ok_iff.1 h
  obtain rfl := Except.ok.inj (hload'.symm.trans hload)
  have hvalid := Store.valid_loadSnapshot hload
  have hdirectory : ∀ k record, store'.directories.get k = some record →
      normalizeWorkspacePath record.path = .ok k := by
    intro k record hk
    rw [hvalid.directoryPath k record hk]
    exact hstable k (.inr (has_of_get hk))
  have hfile : ∀ k record, store'.files.get k = some record →
      normalizeWorkspacePath record.path = .ok k := by
    intro k record hk
    rw [hvalid.filePath k record hk]
    exact hstable k (.inl (has_of_get hk))
  refine ⟨fun k => ⟨fun hk => ?_, fun hk => ?_⟩, fun k bytes => ⟨?_, ?_⟩⟩
  · obtain ⟨entry, hentry, hkey⟩ := Except.exists_of_mem_mapM hdirectories hk
    obtain ⟨j, record, hj, rfl⟩ := Store.mem_directories_exportSnapshot.1 hentry
    obtain rfl := Except.ok.inj ((hdirectory j record hj).symm.trans hkey)
    exact has_of_get hj
  · obtain ⟨record, hrecord⟩ := (has_iff _ _).1 hk
    obtain ⟨j, hj, hkey⟩ := Except.exists_of_mem_of_mapM hdirectories
      (Store.mem_directories_exportSnapshot.2 ⟨k, record, hrecord, rfl⟩)
    rwa [Except.ok.inj ((hdirectory k record hrecord).symm.trans hkey)]
  · rintro ⟨file, hmem, rfl, rfl⟩
    obtain ⟨entry, hentry, hkey⟩ := Except.exists_of_mem_mapM hfiles hmem
    obtain ⟨j, record, hj, rfl⟩ := Store.mem_files_exportSnapshot.1 hentry
    obtain ⟨hpath, hbytes, -⟩ := readSnapshotFile_eq_ok_iff.1 hkey
    obtain rfl := Except.ok.inj ((hfile j record hj).symm.trans hpath)
    exact ⟨record, hj, hbytes.symm⟩
  · rintro ⟨record, hrecord, rfl⟩
    obtain ⟨file, hmem, hkey⟩ := Except.exists_of_mem_of_mapM hfiles
      (Store.mem_files_exportSnapshot.2 ⟨k, record, hrecord, rfl⟩)
    obtain ⟨hpath, hbytes, -⟩ := readSnapshotFile_eq_ok_iff.1 hkey
    exact ⟨file, hmem, Except.ok.inj (hpath.symm.trans (hfile k record hrecord)), hbytes⟩

/-! ### The tree of the workspace -/

variable (w : World)

/-- The file object under a key of the workspace. -/
def fileAt (k : Text) : Option FileRecord :=
  (w.workspaceMount.files.get k).map w.host.records.get

/-- The key names a file of the snapshot. -/
def SnapshotTree.HasFile (t : SnapshotTree) (k : Text) : Prop := ∃ file ∈ t.files, file.path = k

/-- The key will name a file: one of the snapshot, or one of the package. -/
def Keeps (t : SnapshotTree) (k : Text) : Prop :=
  t.HasFile k ∨ ∃ bytes, (k, bytes) ∈ w.fallbackFiles

/-- The descriptor is bound again by its path. -/
structure Rebinds (file : OpenFile) (k : Text) : Prop where
  record : file.record?.isSome = true
  mount : file.mount = some .workspace
  path : file.path = some k
  named : k ≠ []

/-- The workspace is the snapshot, with the package files as they were before where the snapshot has
no file. -/
structure Restores (t : SnapshotTree) (w' : World) : Prop where
  files : ∀ k bytes, (∃ record, w'.fileAt k = some record ∧ record.fallback = false ∧
    record.bytes = bytes) ↔ ∃ file ∈ t.files, file.path = k ∧ file.bytes = bytes
  fallback : ∀ k bytes, (∃ record, w'.fileAt k = some record ∧ record.fallback = true ∧
    record.bytes = bytes) ↔ (k, bytes) ∈ w.fallbackFiles ∧ ¬t.HasFile k
  directories : ∀ k, w'.workspaceMount.dirs.has k = true ↔ k ∈ t.directories
  parents : ∀ k record, w'.fileAt k = some record → record.fallback = false →
    ∀ parent, SepPath.parent? '/' k = some parent → w'.workspaceMount.dirs.has parent = true
  kinds : ∀ k, w'.workspaceMount.files.has k = true →
    w'.workspaceMount.dirs.has k = false ∧ w'.workspaceMount.pathHasChildren k = false
  descriptors : ∀ fd file k r r', w'.openFile fd = some file → file.mount = some .workspace →
    file.path = some k → file.record? = some r → w'.workspaceMount.files.get k = some r' → r = r'

/-- The snapshot is a tree, with the package files too, and every writable descriptor with a path
will find its file. -/
structure Fits (t : SnapshotTree) : Prop where
  functional : ∀ file ∈ t.files, ∀ file' ∈ t.files, file.path = file'.path →
    file.bytes = file'.bytes
  parents : ∀ file ∈ t.files, ∀ parent, SepPath.parent? '/' file.path = some parent →
    parent ∈ t.directories
  kinds : ∀ k, w.Keeps t k → k ∉ t.directories ∧
    ∀ j, j ∈ t.directories ∨ w.Keeps t j → ¬SepPath.Below '/' k j
  descriptors : ∀ fd file k, w.openFile fd = some file → file.writable = true →
    Rebinds file k → w.Keeps t k

variable {w}

theorem fileAt_eq_some_iff {record : FileRecord} :
    w.fileAt k = some record ↔
      ∃ r, w.workspaceMount.files.get k = some r ∧ w.host.records.get r = record := by
  rw [fileAt, Option.map_eq_some_iff]

theorem fileAt_eq_none_iff : w.fileAt k = none ↔ w.workspaceMount.files.get k = none := by
  rw [fileAt, Option.map_eq_none_iff]

theorem has_iff_fileAt :
    w.workspaceMount.files.has k = true ↔ ∃ record, w.fileAt k = some record := by
  rw [has_iff]
  constructor
  · rintro ⟨r, hr⟩
    exact ⟨_, fileAt_eq_some_iff.2 ⟨r, hr, rfl⟩⟩
  · rintro ⟨record, hrecord⟩
    obtain ⟨r, hr, -⟩ := fileAt_eq_some_iff.1 hrecord
    exact ⟨r, hr⟩

/-- A new object under a key leaves the files under the other keys as they are. -/
theorem fileAt_of_set {w' : World} (hapart : w.Apart) {record : FileRecord}
    (hfiles : w'.workspaceMount.files = w.workspaceMount.files.set path w.host.records.next)
    (hrecords : w'.host.records = w.host.records.alloc record) (k : Text) :
    w'.fileAt k = if k = path then some record else w.fileAt k := by
  rw [fileAt, hfiles, hrecords, get_set]
  split
  · rw [Option.map_some, Heap.get_alloc_next]
  rw [fileAt]
  refine Option.map_congr fun r hr => ?_
  exact Heap.get_alloc_of_lt _ _ (hapart.workspace r (inWorkspace_of_get hr)).1

/-- The package files are the objects that carry the mark, under their keys. -/
theorem mem_fallbackFiles_iff (hshares : w.SharesMaps) (hnamed : w.Named) {bytes : Bytes} :
    (k, bytes) ∈ w.fallbackFiles ↔
      ∃ record, w.fileAt k = some record ∧ record.fallback = true ∧ record.bytes = bytes := by
  have hmap : w.host.fileMaps.get w.host.workspace.files = w.workspaceMount.files := by
    rw [← hshares.1]
    rfl
  rw [fallbackFiles, hmap, mem_filterMap]
  constructor
  · rintro ⟨r, hr, hkept⟩
    obtain ⟨j, hj⟩ := (mem_values _ _).1 hr
    simp only [hnamed j r hj, Option.map_some] at hkept
    split at hkept
    next hfallback =>
      obtain ⟨rfl, rfl⟩ := Prod.mk.inj (Option.some.inj hkept)
      exact ⟨_, fileAt_eq_some_iff.2 ⟨r, hj, rfl⟩, hfallback, rfl⟩
    · cases hkept
  · rintro ⟨record, hrecord, hfallback, rfl⟩
    obtain ⟨r, hr, rfl⟩ := fileAt_eq_some_iff.1 hrecord
    refine ⟨r, (mem_values _ _).2 ⟨k, hr⟩, ?_⟩
    simp only [hfallback, if_true, hnamed k r hr, Option.map_some]

/-! ### Filling the maps again -/

theorem Importing.fileAt_putSnapshotFile (hw : w.Importing) (path : Text) (record : FileRecord)
    (k : Text) :
    (w.putSnapshotFile path record).fileAt k = if k = path then some record else w.fileAt k :=
  fileAt_of_set hw.apart (workspaceMount_putSnapshotFile hw.sharesMaps path record) rfl k

/-- The object that a file of a snapshot becomes. -/
def SnapshotFile.record (file : SnapshotFile) : FileRecord :=
  ⟨file.bytes, some file.path, some file.mtimeMs, false⟩

/-- The loop over the files of a snapshot. -/
theorem Importing.foldl_putSnapshotFile (hw : w.Importing) (files : List SnapshotFile) :
    (files.foldl (fun w' file => w'.putSnapshotFile file.path file.record) w).Importing ∧
      ∀ k, ((∀ file ∈ files, file.path ≠ k) ∧
          (files.foldl (fun w' file => w'.putSnapshotFile file.path file.record) w).fileAt k =
            w.fileAt k) ∨
        ∃ file ∈ files, file.path = k ∧
          (files.foldl (fun w' file => w'.putSnapshotFile file.path file.record) w).fileAt k =
            some file.record := by
  induction files generalizing w with
  | nil => exact ⟨hw, fun k => .inl ⟨fun _ h => absurd h not_mem_nil, rfl⟩⟩
  | cons file files ih =>
    obtain ⟨himporting, hrest⟩ := ih
      (hw.putSnapshotFile (show file.record.path = some file.path from rfl))
    refine ⟨himporting, fun k => ?_⟩
    rw [foldl_cons]
    rcases hrest k with ⟨hnone, hsame⟩ | ⟨last, hlast, hpath, hfile⟩
    · rw [hw.fileAt_putSnapshotFile] at hsame
      by_cases hk : k = file.path
      · rw [if_pos hk] at hsame
        exact .inr ⟨file, mem_cons_self, hk.symm, hsame⟩
      · rw [if_neg hk] at hsame
        refine .inl ⟨fun file' hfile' => ?_, hsame⟩
        rcases mem_cons.1 hfile' with rfl | htail
        · exact fun h => hk h.symm
        · exact hnone file' htail
    · exact .inr ⟨last, mem_cons_of_mem _ hlast, hpath, hfile⟩

/-- The loop over the package files, which fill the gaps. -/
theorem Importing.foldl_putFallbackFile (hw : w.Importing) (files : List (Text × Bytes)) :
    (files.foldl World.putFallbackFile w).Importing ∧
      ∀ k, ((w.fileAt k).isSome = true ∨ (∀ file ∈ files, file.1 ≠ k)) ∧
          (files.foldl World.putFallbackFile w).fileAt k = w.fileAt k ∨
        w.fileAt k = none ∧ ∃ bytes, (k, bytes) ∈ files ∧
          (files.foldl World.putFallbackFile w).fileAt k = some ⟨bytes, some k, none, true⟩ := by
  induction files generalizing w with
  | nil => exact ⟨hw, fun k => .inl ⟨.inr fun _ h => absurd h not_mem_nil, rfl⟩⟩
  | cons file files ih =>
    have hhas : (w.host.fileMaps.get w.host.workspace.files) = w.workspaceMount.files := by
      rw [← hw.sharesMaps.1]
      rfl
    by_cases hpresent : w.workspaceMount.files.has file.1 = true
    · -- the key has a file already
      have hskip : w.putFallbackFile file = w := by
        rw [World.putFallbackFile, hhas, if_pos hpresent]
      rw [foldl_cons, hskip]
      obtain ⟨himporting, hrest⟩ := ih hw
      refine ⟨himporting, fun k => ?_⟩
      rcases hrest k with ⟨hold, hsame⟩ | ⟨hnone, bytes, hbytes, hfile⟩
      · refine .inl ⟨?_, hsame⟩
        rcases hold with hsome | hnot
        · exact .inl hsome
        · by_cases hk : file.1 = k
          · obtain ⟨record, hrecord⟩ := has_iff_fileAt.1 hpresent
            rw [← hk, hrecord]
            exact .inl rfl
          · refine .inr fun file' hfile' => ?_
            rcases mem_cons.1 hfile' with rfl | htail
            · exact hk
            · exact hnot file' htail
      · exact .inr ⟨hnone, bytes, mem_cons_of_mem _ hbytes, hfile⟩
    · have hput : w.putFallbackFile file =
          w.putSnapshotFile file.1 ⟨file.2, some file.1, none, true⟩ := by
        rw [World.putFallbackFile, hhas, if_neg hpresent]
      have hgap : w.fileAt file.1 = none := by
        rw [fileAt_eq_none_iff]
        exact (has_eq_false_iff _ _).1 (by simpa using hpresent)
      rw [foldl_cons, hput]
      obtain ⟨himporting, hrest⟩ := ih (hw.putSnapshotFile
        (show (⟨file.2, some file.1, none, true⟩ : FileRecord).path = some file.1 from rfl))
      refine ⟨himporting, fun k => ?_⟩
      have hk := hw.fileAt_putSnapshotFile file.1 ⟨file.2, some file.1, none, true⟩ k
      by_cases heq : k = file.1
      · subst heq
        rw [if_pos rfl] at hk
        rcases hrest file.1 with ⟨-, hsame⟩ | ⟨hnone, -⟩
        · exact .inr ⟨hgap, file.2, mem_cons_self, hsame.trans hk⟩
        · rw [hk] at hnone
          cases hnone
      · rw [if_neg heq] at hk
        rcases hrest k with ⟨hold, hsame⟩ | ⟨hnone, bytes, hbytes, hfile⟩
        · refine .inl ⟨hold.imp (fun h => hk ▸ h) fun hnot file' hfile' => ?_, hsame.trans hk⟩
          rcases mem_cons.1 hfile' with rfl | htail
          · exact fun h => heq h.symm
          · exact hnot file' htail
        · exact .inr ⟨hk ▸ hnone, bytes, mem_cons_of_mem _ hbytes, hfile⟩

/-- The workspace after the import, before the descriptors are bound again. -/
structure Filled (w : World) (t : SnapshotTree) (w' : World) : Prop where
  importing : w'.Importing
  openFiles : w'.runtime.openFiles = w.runtime.openFiles
  directories : ∀ k, w'.workspaceMount.dirs.has k = true ↔ k ∈ t.directories
  files : ∀ k, (∃ file ∈ t.files, file.path = k ∧ w'.fileAt k = some file.record) ∨
    (¬t.HasFile k ∧ ∃ bytes, (k, bytes) ∈ w.fallbackFiles ∧
      w'.fileAt k = some ⟨bytes, some k, none, true⟩) ∨
    (¬w.Keeps t k ∧ w'.fileAt k = none)

theorem filled_importWasiWorkspaceSnapshot (hw : w.Importing) (hwritable : w.writable = true)
    (t : SnapshotTree) : Filled w t (w.importWasiWorkspaceSnapshot t) := by
  set reset := w.resetWorkspace t.directories with hreset
  set stored := t.files.foldl (fun w' file => w'.putSnapshotFile file.path file.record) reset
    with hstored
  have himport : w.importWasiWorkspaceSnapshot t =
      (w.fallbackFiles.foldl putFallbackFile stored).markWorkspaceDirty := by
    rw [importWasiWorkspaceSnapshot, if_neg (by simp [hwritable])]
    rfl
  have hresetFiles : ∀ k, reset.fileAt k = none := by
    intro k
    rw [fileAt_eq_none_iff, files_resetWorkspace hw.sharesMaps]
    rfl
  obtain ⟨himporting, hfiles⟩ := (hw.resetWorkspace t.directories).foldl_putSnapshotFile t.files
  obtain ⟨himporting', hfallback⟩ := himporting.foldl_putFallbackFile w.fallbackFiles
  have himported := w.imported_importWasiWorkspaceSnapshot t
  have hfileAt : ∀ k, (w.importWasiWorkspaceSnapshot t).fileAt k =
      (w.fallbackFiles.foldl putFallbackFile stored).fileAt k := by
    intro k
    rw [himport]
    rfl
  have hstoredFile : ∀ k, (¬t.HasFile k ∧ stored.fileAt k = none) ∨
      ∃ file ∈ t.files, file.path = k ∧ stored.fileAt k = some file.record := by
    intro k
    refine (hfiles k).imp_left fun ⟨hnone, hsame⟩ => ⟨?_, hsame.trans (hresetFiles k)⟩
    rintro ⟨file, hfile, hpath⟩
    exact hnone file hfile hpath
  refine ⟨hw.importWasiWorkspaceSnapshot t, ?_, fun k => ?_, fun k => ?_⟩
  · rw [himported.runtime]
  · have hdirs : (w.importWasiWorkspaceSnapshot t).workspaceMount.dirs =
        reset.workspaceMount.dirs := by
      have hput : ∀ (w' : World) (path : Text) (record : FileRecord),
          (w'.putSnapshotFile path record).workspaceMount.dirs = w'.workspaceMount.dirs :=
        fun _ _ _ => rfl
      have hfiles :=
        foldl_rel (r := fun a b : World => b.workspaceMount.dirs = a.workspaceMount.dirs)
        (fun _ => rfl) (fun _ _ _ h h' => h'.trans h)
        (fun w' (file : SnapshotFile) => hput w' file.path file.record) t.files reset
      have hfallback := foldl_rel
        (r := fun a b : World => b.workspaceMount.dirs = a.workspaceMount.dirs)
        (fun _ => rfl) (fun _ _ _ h h' => h'.trans h) (f := putFallbackFile) (fun w' file => by
          unfold putFallbackFile
          split
          · rfl
          · exact hput ..) w.fallbackFiles stored
      rw [himport]
      exact hfallback.trans hfiles
    have hreset : reset.workspaceMount.dirs =
        OrdMap.ofList (t.directories.map fun path => (path, ())) := by
      have hsets : reset.workspaceMount.dirs =
          (w.host.dirSets.modify w.host.workspace.dirs fun _ =>
            OrdMap.ofList (t.directories.map fun path => (path, ()))).get
              w.runtime.workspaceDirs := rfl
      rw [hsets, ← hw.sharesMaps.2, Heap.get_modify_self]
    rw [hdirs, hreset, has_ofList, map_map]
    simp only [Function.comp_def, map_id']
  · rw [hfileAt]
    rcases hstoredFile k with ⟨hno, hgap⟩ | ⟨file, hfile, hpath, hat⟩
    · rcases hfallback k with ⟨hold, hsame⟩ | ⟨-, bytes, hbytes, hat⟩
      · refine .inr (.inr ⟨?_, hsame.trans hgap⟩)
        rintro (hhas | ⟨bytes, hbytes⟩)
        · exact hno hhas
        · rcases hold with hsome | hnot
          · rw [hgap] at hsome
            cases hsome
          · exact hnot _ hbytes rfl
      · exact .inr (.inl ⟨hno, bytes, hbytes, hat⟩)
    · rcases hfallback k with ⟨-, hsame⟩ | ⟨hnone, -⟩
      · exact .inl ⟨file, hfile, hpath, hsame.trans hat⟩
      · rw [hat] at hnone
        cases hnone

/-! ### Binding the descriptors again -/

/-- The files of `w'` are those of `w` and empty ones for writable descriptors of `w`. -/
structure Recreated (w w' : World) : Prop where
  apart : w'.Apart
  dirs : w'.workspaceMount.dirs = w.workspaceMount.dirs
  files : ∀ k, w'.fileAt k = w.fileAt k ∨
    w.fileAt k = none ∧ w'.fileAt k = some ⟨[], some k, none, false⟩ ∧
      ∃ fd file, w.openFile fd = some file ∧ file.writable = true ∧ Rebinds file k
  closed : ∀ fd, w.openFile fd = none → w'.openFile fd = none

/-- What binding a descriptor again has given it. -/
inductive Bound (w : World) (fd : Int) (file : OpenFile) (w' : World) : Prop
  | kept (hfile : w'.openFile fd = some file)
      (hgone : ∀ k, Rebinds file k → file.writable = false ∧ w.fileAt k = none)
  | bound (k : Text) (r : ℕ) (writable : Bool) (offset : ℕ) (hrebinds : Rebinds file k)
      (hfile : w'.openFile fd = some { file with kind := .file r writable offset })
      (hget : w'.workspaceMount.files.get k = some r)

theorem openFile_putOpenFile_self (w : World) (fd : Int) (file : OpenFile) :
    (w.putOpenFile fd file).openFile fd = some file :=
  get_set_self _ _ _

/-- The record of a file that is created for a descriptor. -/
theorem fileAt_createFile (hapart : w.Apart) (path k : Text) :
    (w.createFile .workspace path).fileAt k =
      if k = path then some ⟨[], some path, none, false⟩ else w.fileAt k := by
  refine fileAt_of_set hapart ?_ rfl k
  have hmaps : (w.createFile .workspace path).workspaceMount.files =
      (w.host.fileMaps.modify w.runtime.files fun files =>
        files.set path w.host.records.next).get w.runtime.files := rfl
  rw [hmaps, Heap.get_modify_self]
  rfl

theorem get_createFile_ne (h : k ≠ path) :
    (w.createFile .workspace path).workspaceMount.files.get k =
      w.workspaceMount.files.get k := by
  have hmaps : (w.createFile .workspace path).workspaceMount.files =
      (w.host.fileMaps.modify w.runtime.files fun files =>
        files.set path w.host.records.next).get w.runtime.files := rfl
  rw [hmaps, Heap.get_modify_self, get_set_ne _ _ h]
  rfl

/-- A step binds its descriptor to the file of its path, which it may have to make. -/
theorem rebindOpenFile_of_rebinds (w : World) (fd : Int) (hrebinds : Rebinds file k) :
    (∃ r writable offset, w.workspaceMount.files.get k = some r ∧
        w.rebindOpenFile fd file =
          w.putOpenFile fd { file with kind := .file r writable offset }) ∨
      w.workspaceMount.files.get k = none ∧
        ((file.writable = true ∧ ∃ offset, w.rebindOpenFile fd file =
            (w.createFile .workspace k).putOpenFile fd
              { file with kind := .file w.host.records.next true offset }) ∨
          file.writable = false ∧ w.rebindOpenFile fd file = w) := by
  obtain ⟨kind, mount, path, rights, fdflags⟩ := file
  obtain ⟨hrecord, rfl, rfl, hnamed⟩ := hrebinds
  cases kind with
  | file old writable offset =>
    unfold rebindOpenFile
    simp only [hnamed, ne_eq, not_false_eq_true, and_self, if_true]
    cases hget : w.workspaceMount.files.get k with
    | some r => exact .inl ⟨r, writable, offset, rfl, rfl⟩
    | none =>
      refine .inr ⟨rfl, ?_⟩
      cases writable with
      | true => exact .inl ⟨rfl, offset, rfl⟩
      | false => exact .inr ⟨rfl, rfl⟩
  | _ => cases hrecord

theorem rebindOpenFile_of_not_rebinds (h : ∀ k, ¬Rebinds file k) :
    w.rebindOpenFile fd file = w := by
  rcases w.rebindOpenFile_cases fd file with
    heq | ⟨old, writable, offset, path, record, hkind, hpath, hmount, hne, -⟩
  · exact heq
  · refine absurd ⟨?_, hmount, hpath, hne⟩ (h path)
    rw [OpenFile.record?, hkind]
    rfl

/-- A step keeps the entries of the map of files. -/
theorem get_rebindOpenFile {r : ℕ} (hget : w.workspaceMount.files.get k = some r) :
    (w.rebindOpenFile fd file).workspaceMount.files.get k = some r := by
  rcases w.rebindOpenFile_cases fd file with
    h | ⟨_, _, _, path, _, _, _, _, _, ⟨_, h⟩ | ⟨hnone, _, _, h⟩⟩
  · rwa [h]
  · rw [h]
    exact hget
  · rw [h]
    have hne : k ≠ path := by
      rintro rfl
      rw [hnone] at hget
      cases hget
    exact (get_createFile_ne hne).trans hget

/-- A step of the loop. -/
theorem Recreated.rebindOpenFile {w' : World} (h : Recreated w w')
    (hold : w.openFile fd = some file) (hfile : w'.openFile fd = some file) :
    Recreated w (w'.rebindOpenFile fd file) ∧ Bound w fd file (w'.rebindOpenFile fd file) := by
  have hapart := apart_rebindOpenFile h.apart fd file
  have hclosed :
      ∀ fd', w.openFile fd' = none → (w'.rebindOpenFile fd file).openFile fd' = none := by
    intro fd' hnone
    have hne : fd' ≠ fd := by
      rintro rfl
      rw [hold] at hnone
      cases hnone
    rw [w'.openFile_rebindOpenFile_ne file hne]
    exact h.closed fd' hnone
  by_cases hrebinds : ∃ k, Rebinds file k
  · obtain ⟨k, hrebinds⟩ := hrebinds
    have hother : ∀ j, Rebinds file j → j = k := fun j hj =>
      Option.some.inj (hj.path.symm.trans hrebinds.path)
    rcases w'.rebindOpenFile_of_rebinds fd hrebinds with
      ⟨r, writable, offset, hget, heq⟩ | ⟨hnone, ⟨hwritable, offset, heq⟩ | ⟨hreadOnly, heq⟩⟩
    · rw [heq] at hapart hclosed ⊢
      exact ⟨⟨hapart, h.dirs, h.files, hclosed⟩,
        .bound k r writable offset hrebinds (openFile_putOpenFile_self ..) hget⟩
    · -- nobody has made the file yet
      have hgap : w.fileAt k = none := by
        rcases h.files k with hsame | ⟨hnone, -⟩
        · rw [← hsame, fileAt_eq_none_iff]
          exact hnone
        · exact hnone
      rw [heq] at hapart hclosed ⊢
      refine ⟨⟨hapart, h.dirs, fun j => ?_, hclosed⟩, .bound k _ true offset hrebinds
        (openFile_putOpenFile_self ..) (w'.get_createFile .workspace k)⟩
      change (w'.createFile .workspace k).fileAt j = _ ∨ _ ∧
        (w'.createFile .workspace k).fileAt j = _ ∧ _
      rw [fileAt_createFile h.apart]
      split
      next hj =>
        subst hj
        exact .inr ⟨hgap, rfl, fd, file, hold, hwritable, hrebinds⟩
      · exact h.files j
    · have hgap : w.fileAt k = none := by
        rcases h.files k with hsame | ⟨hnone, -⟩
        · rw [← hsame, fileAt_eq_none_iff]
          exact hnone
        · exact hnone
      rw [heq]
      exact ⟨h, .kept hfile fun j hj => (hother j hj) ▸ ⟨hreadOnly, hgap⟩⟩
  · rw [not_exists] at hrebinds
    rw [rebindOpenFile_of_not_rebinds hrebinds]
    exact ⟨h, .kept hfile fun k hk => absurd hk (hrebinds k)⟩

theorem Bound.rebindOpenFile_ne {w' : World} {fd' : Int} (h : Bound w fd file w') (hne : fd ≠ fd')
    (file' : OpenFile) : Bound w fd file (w'.rebindOpenFile fd' file') := by
  have hopen := w'.openFile_rebindOpenFile_ne file' hne
  cases h with
  | kept hfile hgone => exact .kept (hopen.trans hfile) hgone
  | bound k r writable offset hrebinds hfile hget =>
    exact .bound k r writable offset hrebinds (hopen.trans hfile) (get_rebindOpenFile hget)

theorem recreated_rebindOpenWorkspaceFiles (hapart : w.Apart) (hwritable : w.writable = true) :
    Recreated w w.rebindOpenWorkspaceFiles ∧
      ∀ fd file, w.openFile fd = some file → Bound w fd file w.rebindOpenWorkspaceFiles :=
  w.rebind_loop (P := Recreated w) hwritable
    (fun _ _ _ hold hfile h => h.rebindOpenFile hold hfile)
    (fun _ _ _ _ file' hne _ h => h.rebindOpenFile_ne hne file')
    ⟨hapart, rfl, fun _ => .inl rfl, fun _ h => h⟩

/-! ### The law -/

variable {t : SnapshotTree} {imported w' : World}

/-- What the snapshot and the package put under a key. -/
theorem Filled.keeps (h : Filled w t imported) {record : FileRecord}
    (hrecord : imported.fileAt k = some record) : w.Keeps t k := by
  rcases h.files k with ⟨file, hfile, hpath, -⟩ | ⟨-, bytes, hbytes, -⟩ | ⟨-, hnone⟩
  · exact .inl ⟨file, hfile, hpath⟩
  · exact .inr ⟨bytes, hbytes⟩
  · rw [hrecord] at hnone
    cases hnone

theorem Filled.exists_of_keeps (h : Filled w t imported) (hk : w.Keeps t k) :
    ∃ record, imported.fileAt k = some record := by
  rcases h.files k with ⟨file, -, -, hat⟩ | ⟨-, bytes, -, hat⟩ | ⟨hno, -⟩
  · exact ⟨_, hat⟩
  · exact ⟨_, hat⟩
  · exact absurd hk hno

/-- When every writable descriptor finds its file, binding makes no file. -/
theorem Fits.fileAt_eq (hfits : w.Fits t) (hfilled : Filled w t imported)
    (h : Recreated imported w') (k : Text) : w'.fileAt k = imported.fileAt k := by
  rcases h.files k with hsame | ⟨hnone, -, fd, file, hfile, hwritable, hrebinds⟩
  · exact hsame
  · rw [openFile, hfilled.openFiles] at hfile
    obtain ⟨record, hrecord⟩ :=
      hfilled.exists_of_keeps (hfits.descriptors fd file k hfile hwritable hrebinds)
    rw [hrecord] at hnone
    cases hnone

/-- Where a snapshot fits, it is restored. -/
theorem Fits.restores (hfits : w.Fits t) (hroot : [] ∈ t.directories)
    (himporting : w.Importing) (hfilled : Filled w t imported) (h : Recreated imported w')
    (hbound : ∀ fd file, imported.openFile fd = some file → Bound imported fd file w') :
    w.Restores t w' := by
  have hsame := hfits.fileAt_eq hfilled h
  have hdirs : ∀ k, w'.workspaceMount.dirs.has k = true ↔ k ∈ t.directories := by
    intro k
    rw [h.dirs]
    exact hfilled.directories k
  have hkeeps : ∀ k, w'.workspaceMount.files.has k = true → w.Keeps t k := by
    intro k hk
    obtain ⟨record, hrecord⟩ := has_iff_fileAt.1 hk
    exact hfilled.keeps ((hsame k).symm.trans hrecord)
  refine ⟨fun k bytes => ?_, fun k bytes => ?_, hdirs,
    fun k record hrecord hown parent hparent => ?_,
    fun k hk => ?_, fun fd file k r r' hfile hmount hpath hr hget => ?_⟩
  · -- the files of the snapshot
    rw [hsame]
    rcases hfilled.files k with ⟨file, hfile, hpath, hat⟩ | ⟨hno, bytes', -, hat⟩ | ⟨hno, hat⟩
    · rw [hat]
      constructor
      · rintro ⟨record, hrecord, -, rfl⟩
        obtain rfl := Option.some.inj hrecord
        exact ⟨file, hfile, hpath, rfl⟩
      · rintro ⟨file', hfile', hpath', rfl⟩
        exact ⟨_, rfl, rfl, hfits.functional file hfile file' hfile' (hpath.trans hpath'.symm)⟩
    · rw [hat]
      constructor
      · rintro ⟨record, hrecord, hown, -⟩
        obtain rfl := Option.some.inj hrecord
        cases hown
      · rintro ⟨file, hfile, hpath, -⟩
        exact absurd ⟨file, hfile, hpath⟩ hno
    · rw [hat]
      constructor
      · rintro ⟨record, hrecord, -⟩
        cases hrecord
      · rintro ⟨file, hfile, hpath, -⟩
        exact absurd (.inl ⟨file, hfile, hpath⟩) hno
  · -- the files of the package
    rw [hsame]
    rcases hfilled.files k with ⟨file, hfile, hpath, hat⟩ | ⟨hno, bytes', hbytes', hat⟩ | ⟨hno, hat⟩
    · rw [hat]
      constructor
      · rintro ⟨record, hrecord, hfallback, -⟩
        obtain rfl := Option.some.inj hrecord
        cases hfallback
      · rintro ⟨-, hnot⟩
        exact absurd ⟨file, hfile, hpath⟩ hnot
    · rw [hat]
      constructor
      · rintro ⟨record, hrecord, -, rfl⟩
        obtain rfl := Option.some.inj hrecord
        exact ⟨hbytes', hno⟩
      · rintro ⟨hbytes, -⟩
        -- one key has the bytes of one object
        obtain ⟨record, hrecord, -, rfl⟩ :=
          (mem_fallbackFiles_iff himporting.sharesMaps himporting.named).1 hbytes
        obtain ⟨record', hrecord', -, rfl⟩ :=
          (mem_fallbackFiles_iff himporting.sharesMaps himporting.named).1 hbytes'
        obtain rfl := Option.some.inj (hrecord.symm.trans hrecord')
        exact ⟨_, rfl, rfl, rfl⟩
    · rw [hat]
      constructor
      · rintro ⟨record, hrecord, -⟩
        cases hrecord
      · rintro ⟨hbytes, -⟩
        exact absurd (.inr ⟨bytes, hbytes⟩) hno
  · rw [hsame] at hrecord
    rw [hdirs]
    rcases hfilled.files k with ⟨file, hfile, rfl, -⟩ | ⟨-, bytes, -, hat⟩ | ⟨-, hat⟩
    · exact hfits.parents file hfile parent hparent
    · rw [hat] at hrecord
      obtain rfl := Option.some.inj hrecord
      cases hown
    · rw [hat] at hrecord
      cases hrecord
  · obtain ⟨hnot, hbelow⟩ := hfits.kinds k (hkeeps k hk)
    refine ⟨?_, (w'.workspaceMount.pathHasChildren_eq_false_iff k).2 fun j hj => ⟨?_, ?_⟩⟩
    · rw [← Bool.not_eq_true, hdirs]
      exact hnot
    · rw [← Bool.not_eq_true, hdirs]
      exact fun hdir => hbelow j (.inl hdir) hj
    · rw [← Bool.not_eq_true]
      exact fun hfile => hbelow j (.inr (hkeeps j hfile)) hj
  · have hk : w.Keeps t k := hkeeps k (has_of_get hget)
    have hne : k ≠ [] := by
      rintro rfl
      exact (hfits.kinds [] hk).1 hroot
    cases hopen : imported.openFile fd with
    | none =>
      rw [h.closed fd hopen] at hfile
      cases hfile
    | some old =>
      cases hbound fd old hopen with
      | kept hkept hgone =>
        obtain rfl := Option.some.inj (hkept.symm.trans hfile)
        have hnone := (hgone k ⟨by rw [hr]; rfl, hmount, hpath, hne⟩).2
        obtain ⟨record, hrecord⟩ := hfilled.exists_of_keeps hk
        rw [hrecord] at hnone
        cases hnone
      | bound j r₁ writable offset hrebinds hnew hget₁ =>
        obtain rfl := Option.some.inj (hnew.symm.trans hfile)
        obtain rfl : j = k := Option.some.inj (hrebinds.path.symm.trans hpath)
        obtain rfl : r₁ = r := Option.some.inj hr
        exact Option.some.inj (hget₁.symm.trans hget)

/-- A snapshot that is restored has fitted. -/
theorem Restores.fits (hrestores : w.Restores t w') (hfilled : Filled w t imported)
    (h : Recreated imported w')
    (hbound : ∀ fd file, imported.openFile fd = some file → Bound imported fd file w') :
    w.Fits t := by
  have hkept : ∀ k, w.Keeps t k → w'.workspaceMount.files.has k = true := by
    intro k hk
    obtain ⟨record, hrecord⟩ := hfilled.exists_of_keeps hk
    rw [has_iff_fileAt]
    rcases h.files k with hsame | ⟨hnone, hnew, -⟩
    · exact ⟨record, hsame.trans hrecord⟩
    · exact ⟨_, hnew⟩
  refine ⟨fun file hfile file' hfile' hpath => ?_, fun file hfile parent hparent => ?_,
    fun k hk =>
      ⟨fun hdir => ?_, fun j hj hbelow => ?_⟩, fun fd file k hfile hwritable hrebinds => ?_⟩
  · obtain ⟨record, hrecord, -, hbytes⟩ :=
      (hrestores.files file.path file.bytes).2 ⟨file, hfile, rfl, rfl⟩
    obtain ⟨record', hrecord', -, hbytes'⟩ :=
      (hrestores.files file.path file'.bytes).2 ⟨file', hfile', hpath.symm, rfl⟩
    obtain rfl := Option.some.inj (hrecord.symm.trans hrecord')
    exact hbytes.symm.trans hbytes'
  · obtain ⟨record, hrecord, hown, -⟩ :=
      (hrestores.files file.path file.bytes).2 ⟨file, hfile, rfl, rfl⟩
    exact (hrestores.directories parent).1
      (hrestores.parents file.path record hrecord hown parent hparent)
  · have hno := (hrestores.kinds k (hkept k hk)).1
    rw [(hrestores.directories k).2 hdir] at hno
    cases hno
  · have hno := (w'.workspaceMount.pathHasChildren_eq_false_iff k).1
      (hrestores.kinds k (hkept k hk)).2 j hbelow
    rcases hj with hdir | hfile
    · rw [(hrestores.directories j).2 hdir] at hno
      cases hno.1
    · rw [hkept j hfile] at hno
      cases hno.2
  · by_contra hno
    have hfile' : imported.openFile fd = some file := by
      rw [openFile, hfilled.openFiles]
      exact hfile
    -- the descriptor has got an empty file, which is not one of the snapshot
    have hhas : w'.workspaceMount.files.has k = true := by
      cases hbound fd file hfile' with
      | kept _ hgone =>
        rw [hwritable] at hgone
        cases (hgone k hrebinds).1
      | bound j r writable offset hrebinds' hnew hget =>
        obtain rfl : j = k := Option.some.inj (hrebinds'.path.symm.trans hrebinds.path)
        exact has_of_get hget
    obtain ⟨record, hrecord⟩ := has_iff_fileAt.1 hhas
    have hgap : imported.fileAt k = none := by
      rcases hfilled.files k with ⟨file, hfile, hpath, -⟩ | ⟨-, bytes, hbytes, -⟩ | ⟨-, hnone⟩
      · exact absurd (.inl ⟨file, hfile, hpath⟩) hno
      · exact absurd (.inr ⟨bytes, hbytes⟩) hno
      · exact hnone
    rcases h.files k with hsame | ⟨-, hnew, -⟩
    · rw [hsame, hgap] at hrecord
      cases hrecord
    · obtain ⟨file, hfile, hpath, -⟩ := (hrestores.files k []).1 ⟨_, hnew, rfl, rfl⟩
      exact hno (.inl ⟨file, hfile, hpath⟩)

/-- The workspace is restored exactly when the snapshot fits. -/
theorem restores_childSnapshot_iff (hw : w.Importing) (hwritable : w.writable = true)
    (hroot : [] ∈ t.directories) :
    w.Restores t (w.importWasiWorkspaceSnapshot t).rebindOpenWorkspaceFiles ↔ w.Fits t := by
  have hfilled := filled_importWasiWorkspaceSnapshot hw hwritable t
  have hwritable' : (w.importWasiWorkspaceSnapshot t).writable = true :=
    (w.imported_importWasiWorkspaceSnapshot t).writable.trans hwritable
  obtain ⟨hrecreated, hbound⟩ :=
    recreated_rebindOpenWorkspaceFiles hfilled.importing.apart hwritable'
  exact ⟨fun h => h.fits hfilled hrecreated hbound,
    fun h => h.restores hroot hw hfilled hrecreated hbound⟩

end World

namespace System

/-- In every state of a run in which no child renames a workspace directory while its parent waits,
and for every snapshot that can be read: the workspace is restored exactly when the snapshot
fits. -/
theorem restores_iff {snapshot : Option World.SnapshotTree} {files rootFiles : List PackageFile}
    {cwd : Option Text} {stdin : Bytes} {s : System}
    (hrun : Run step SparesParent (boot snapshot files rootFiles cwd stdin) s)
    (hwritable : s.world.writable = true) {localeLe : Text → Text → Bool} {now : ℕ}
    {returned : Snapshot} {t : World.SnapshotTree}
    (hread : readSnapshot localeLe now returned = .ok t) :
    s.world.Restores t (s.step (.childSnapshot t)).world ↔ s.world.Fits t := by
  have hcoherent := coherent_of_run hrun
  have hworld : s.world.Apart := hcoherent.apart s.runtime mem_cons_self
  exact World.restores_childSnapshot_iff ⟨hcoherent.sharesMaps, hworld, hcoherent.named⟩ hwritable
    (World.SnapshotTree.root_mem hread)

/-- The snapshot of an empty workspace. -/
def emptySnapshot : Snapshot := ⟨[], [], workspacePreopenPath, 1⟩

/-- What the store of an empty workspace exports. -/
theorem exportSnapshot_empty : (Store.empty 0).exportSnapshot (fun _ _ => true) =
    ⟨[⟨some 0, workspacePreopenPath⟩], [], workspacePreopenPath, 1⟩ := by
  have hdirectories := mergeSort_singleton (r := fun _ _ => true)
    (⟨some 0, workspacePreopenPath⟩ : SnapshotDirectoryEntry)
  have hfiles := mergeSort_nil (r := fun _ _ : SnapshotFileEntry => true)
  exact congrArg₂ (fun directories files =>
    (⟨directories, files, workspacePreopenPath, 1⟩ : Snapshot)) hdirectories hfiles

theorem readSnapshot_emptySnapshot :
    readSnapshot (fun _ _ => true) 0 emptySnapshot = .ok ⟨[[]], []⟩ := by
  have hload : Store.loadSnapshot 0 emptySnapshot = .ok (Store.empty 0) := rfl
  rw [readSnapshot, hload]
  simp only [bind, Except.bind, exportSnapshot_empty]
  rfl

/-- A guest that has made the file `a` and keeps it open. -/
def keptOpen : System :=
  runAll step (boot (some ⟨[[]], []⟩) [] [] none [])
    [.call (.pathOpen 3 0 "a".toList oflagsCreat scratchFileRights 0 0)]

/-- The child has written a byte to the file. -/
def writtenSnapshot : Snapshot :=
  ⟨[], [⟨[7], some 0, "/workspace/a".toList, 1⟩], workspacePreopenPath, 1⟩

theorem readSnapshot_writtenSnapshot :
    readSnapshot (fun _ _ => true) 0 writtenSnapshot = .ok ⟨[[]], [⟨"a".toList, [7], 0⟩]⟩ := by
  have hload : Store.loadSnapshot 0 writtenSnapshot =
      .ok ⟨(Store.empty 0).directories, .ofList [("a".toList, ⟨[7], 0, "/workspace/a".toList⟩)]⟩ :=
    rfl
  have hdirectories := mergeSort_singleton (r := fun _ _ => true)
    (⟨some 0, workspacePreopenPath⟩ : SnapshotDirectoryEntry)
  have hfiles := mergeSort_singleton (r := fun _ _ => true)
    (⟨[7], some 0, "/workspace/a".toList, 1⟩ : SnapshotFileEntry)
  have hexport : Store.exportSnapshot (fun _ _ => true)
      ⟨(Store.empty 0).directories, .ofList [("a".toList, ⟨[7], 0, "/workspace/a".toList⟩)]⟩ = _ :=
    congrArg₂ (fun directories files =>
      (⟨directories, files, workspacePreopenPath, 1⟩ : Snapshot)) hdirectories hfiles
  rw [readSnapshot, hload]
  simp only [bind, Except.bind, hexport]
  rfl

/-- The general theorem, applied to the file that is open and was written by the child. -/
theorem restores_iff_keptOpen :
    keptOpen.world.Restores ⟨[[]], [⟨"a".toList, [7], 0⟩]⟩
        (keptOpen.step (.childSnapshot ⟨[[]], [⟨"a".toList, [7], 0⟩]⟩)).world ↔
      keptOpen.world.Fits ⟨[[]], [⟨"a".toList, [7], 0⟩]⟩ := by
  have hspares : (boot (some ⟨[[]], []⟩) [] [] none []).SparesParent
      (.call (.pathOpen 3 0 "a".toList oflagsCreat scratchFileRights 0 0)) :=
    fun hparent => absurd hparent (by decide)
  have hrun : Run step SparesParent (boot (some ⟨[[]], []⟩) [] [] none []) keptOpen :=
    .next _ .start hspares
  exact restores_iff hrun rfl readSnapshot_writtenSnapshot

/-- The child removes the file and returns an empty workspace, but the file is back, and empty. -/
theorem not_restores_keptOpen :
    Reach step (boot (some ⟨[[]], []⟩) [] [] none []) keptOpen ∧
      readSnapshot (fun _ _ => true) 0 emptySnapshot = .ok ⟨[[]], []⟩ ∧
      ¬keptOpen.world.Restores ⟨[[]], []⟩ (keptOpen.step (.childSnapshot ⟨[[]], []⟩)).world := by
  refine ⟨reach_runAll _ _, readSnapshot_emptySnapshot, fun h => ?_⟩
  have hfile : (keptOpen.step (.childSnapshot ⟨[[]], []⟩)).world.fileAt "a".toList =
      some ⟨[], some "a".toList, none, false⟩ := by decide
  obtain ⟨file, hmem, -⟩ := (h.files "a".toList []).1 ⟨_, hfile, rfl, rfl⟩
  cases hmem

end System

end WasmHost

import WasmHost.Wasi.RemountedWorkspace
import WasmHost.Workspace.StableNames

/-!
# The package in the workspace

A writable workspace is composed of a snapshot and the files of the package, when it is mounted and
when a child command returns one: the files of the package go where the snapshot has no file. Only
the keys of files are compared, and nobody makes the directories of a package file.

* `World.Overlaid`: what both compositions do.
* `World.Composed`: what a composition should be.
* `World.composed_iff`: when it is that.
* `System.composition_iff`: at the start of a run, and for the snapshots of its children.
-/

namespace WasmHost

open OrdMap

namespace World

variable {w : World} {path : Text}

/-! ### Opening a workspace file by its key -/

/-- The guest can open the file under its key. -/
def OpensByKey (w : World) (k : Text) : Prop :=
  ∃ fd file, (w.pathOpen workspaceFd 0 k 0 0 0 0).2 = .ok fd ∧
    (w.pathOpen workspaceFd 0 k 0 0 0 0).1.openFile fd = some file ∧ file.path = some k ∧
      file.record? = w.workspaceMount.files.get k

theorem hasFlag_zero {n : ℕ} (flag : BitVec n) : hasFlag 0 flag = false := by
  simp [hasFlag]

variable {key : Text}

theorem pathOpen_of_resolves (hw : w.writable = true)
    (hkey : resolveMountedPath [] path workspacePreopenPath true false = .ok key) :
    w.pathOpen workspaceFd 0 path 0 0 0 0 = w.openMountedFile .workspace key 0 0 0 := by
  simp only [pathOpen, hasFlag_zero, mutableWorkspaceBasePath, hw, workspaceBasePath,
    openWorkspaceFile, if_true, hkey]
  rfl

theorem pathOpen_of_not_resolves (hw : w.writable = true) {errno : Errno}
    (hkey : resolveMountedPath [] path workspacePreopenPath true false = .error errno) :
    w.pathOpen workspaceFd 0 path 0 0 0 0 = (w, .error errno) := by
  simp only [pathOpen, hasFlag_zero, mutableWorkspaceBasePath, hw, workspaceBasePath,
    openWorkspaceFile, if_true, hkey]
  rfl

theorem openMountedFile_of_get {record : ℕ} (hcheck : w.workspaceMount.checkOpenFile key = .ok ())
    (hget : w.workspaceMount.files.get key = some record) :
    w.openMountedFile .workspace key 0 0 0 =
      w.openFileDescriptor key (some .workspace) record true scratchFileRights 0 := by
  have hmount : w.mountOf .workspace = w.workspaceMount := rfl
  simp only [openMountedFile, hasFlag_zero, hmount, hcheck, hget]
  rfl

/-- What a plain request to open a file needs. -/
theorem of_openMountedFile {fd : Int} (h : (w.openMountedFile .workspace key 0 0 0).2 = .ok fd) :
    w.workspaceMount.checkOpenFile key = .ok () ∧
      ∃ record, w.workspaceMount.files.get key = some record := by
  have hmount : w.mountOf .workspace = w.workspaceMount := rfl
  unfold openMountedFile at h
  simp only [hasFlag_zero, hmount, Bool.or_self, Bool.false_eq_true, false_and, if_false] at h
  split at h
  · cases h
  next hcheck =>
    refine ⟨hcheck, ?_⟩
    split at h
    · cases h
    next record hget => exact ⟨record, hget⟩

/-- A file can be opened under its key exactly when the key is canonical and the checks pass. -/
theorem opensByKey_iff (hw : w.writable = true) (hroot : w.workspaceMount.dirs.has [] = true)
    {k : Text} : w.OpensByKey k ↔ CanonicalKey k ∧ w.workspaceMount.checkOpenFile k = .ok () ∧
      w.workspaceMount.files.has k = true := by
  constructor
  · rintro ⟨fd, file, hok, hfile, hpath, -⟩
    obtain ⟨key, hkey⟩ : ∃ key,
        resolveMountedPath [] k workspacePreopenPath true false = .ok key := by
      cases hresolve : resolveMountedPath [] k workspacePreopenPath true false with
      | ok key => exact ⟨key, rfl⟩
      | error =>
        rw [pathOpen_of_not_resolves hw hresolve] at hok
        cases hok
    rw [pathOpen_of_resolves hw hkey] at hok hfile
    obtain ⟨hcheck, record, hget⟩ := of_openMountedFile hok
    rw [openMountedFile_of_get hcheck hget] at hok hfile
    obtain rfl := Except.ok.inj hok
    have hnew : file.path = some key := by
      change (w.runtime.openFiles.set _ _).get _ = some file at hfile
      rw [get_set_self] at hfile
      rw [← Option.some.inj hfile]
    obtain rfl := Option.some.inj (hnew.symm.trans hpath)
    refine ⟨?_, hcheck, has_of_get hget⟩
    refine (canonicalPath_of_resolveMountedPath (.inl rfl) hkey).resolve_left fun hnil => ?_
    have hdir := ((w.workspaceMount.checkOpenFile_eq_ok_iff key).1 hcheck).1
    rw [hnil, hroot] at hdir
    cases hdir
  · rintro ⟨hkey, hcheck, hhas⟩
    obtain ⟨record, hget⟩ := (has_iff _ _).1 hhas
    have hresolve := @resolveMountedPath_of_canonical k [] workspacePreopenPath true false hkey rfl
    rw [OpensByKey, pathOpen_of_resolves hw hresolve,
      show joinKey [] k = k from rfl, openMountedFile_of_get hcheck hget]
    exact ⟨w.runtime.nextFileFd, _, rfl, get_set_self _ _ _, rfl, hget.symm⟩

/-! ### Compositions -/

/-- The workspace holds the entries of the snapshot, and package files where it has no file. -/
structure Overlaid (t : SnapshotTree) (packageFiles : List (Text × Bytes)) (w : World) : Prop where
  writable : w.writable = true
  directories : ∀ k, w.workspaceMount.dirs.has k = true ↔ k ∈ t.directories
  files : ∀ k, (∃ file ∈ t.files, file.path = k ∧ w.fileAt k = some file.record) ∨
    (¬t.HasFile k ∧ ∃ bytes, (k, bytes) ∈ packageFiles ∧
      w.fileAt k = some ⟨bytes, some k, none, true⟩) ∨
    (¬t.HasFile k ∧ (∀ bytes, (k, bytes) ∉ packageFiles) ∧ w.fileAt k = none)

/-- The workspace is a tree in which the entries of the store are found, and besides them the files
of the package, each of which the guest can open. -/
structure Composed (store : Store) (packageFiles : List (Text × Bytes)) (w : World) : Prop where
  disjoint : ∀ k, w.workspaceMount.files.has k = true → w.workspaceMount.dirs.has k = false
  leaf : ∀ f k, w.workspaceMount.files.has f = true → w.workspaceMount.files.has k = true →
    ¬SepPath.Below '/' f k
  directory : ∀ k, store.directories.has k = true → w.workspaceMount.dirs.has k = true
  file : ∀ k stored, store.files.get k = some stored →
    ∃ record, w.fileAt k = some record ∧ record.fallback = false ∧ record.bytes = stored.content
  package : ∀ file ∈ packageFiles, store.files.has file.1 = false →
    store.directories.has file.1 = false →
    ∃ record, w.fileAt file.1 = some record ∧ record.bytes = file.2 ∧ w.OpensByKey file.1

/-- The files of the package that the store has no file for go into its directories, and none of
them is given twice. -/
structure Compatible (store : Store) (packageFiles : List (Text × Bytes)) : Prop where
  free : ∀ file ∈ packageFiles, store.files.has file.1 = false → CanonicalKey file.1 ∧
    store.directories.has file.1 = false ∧ store.directories.has (parentPath file.1) = true
  functional : ∀ file ∈ packageFiles, ∀ file' ∈ packageFiles, file.1 = file'.1 →
    store.files.has file.1 = false → file.2 = file'.2

section

variable {localeLe : Text → Text → Bool} {now : ℕ} {snapshot : Snapshot} {store : Store}
    {t : SnapshotTree} {packageFiles : List (Text × Bytes)} {k : Text}

/-- What is found under every key names a key that is read back as it is. -/
theorem Composed.stable (h : Composed store packageFiles w)
    (hload : Store.loadSnapshot now snapshot = .ok store)
    (hread : readSnapshot localeLe now snapshot = .ok t) (hover : Overlaid t packageFiles w) :
    store.Stable := by
  obtain ⟨store', hload', hdirectories, hfiles⟩ := readSnapshot_eq_ok_iff.1 hread
  obtain rfl := Except.ok.inj (hload'.symm.trans hload)
  have hvalid := Store.valid_loadSnapshot hload
  rintro k (hk | hk)
  · obtain ⟨bound, hbound⟩ := exists_length_le store'.files
    refine storeStable_of_onto (fun k => store'.files.has k = true) _ hbound
      (fun k hk => Store.canonicalPath_of_loadSnapshot hload (.inl hk)) (fun k hk => ?_) hk
    obtain ⟨stored, hstored⟩ := (has_iff _ _).1 hk
    obtain ⟨record, hrecord, hown, -⟩ := h.file k stored hstored
    rcases hover.files k with ⟨file, hmem, rfl, -⟩ | ⟨-, bytes, -, hfallback⟩ | ⟨-, -, hnone⟩
    · obtain ⟨entry, hentry, hkey⟩ := Except.exists_of_mem_mapM hfiles hmem
      obtain ⟨j, old, hj, rfl⟩ := Store.mem_files_exportSnapshot.1 hentry
      refine ⟨j, has_of_get hj, ?_⟩
      rw [← hvalid.filePath j old hj]
      exact (readSnapshotFile_eq_ok_iff.1 hkey).1
    · -- a package file is not the guest's own
      rw [Option.some.inj (hrecord.symm.trans hfallback)] at hown
      cases hown
    · cases hrecord.symm.trans hnone
  · obtain ⟨bound, hbound⟩ := exists_length_le store'.directories
    refine storeStable_of_onto (fun k => store'.directories.has k = true) _ hbound
      (fun k hk => Store.canonicalPath_of_loadSnapshot hload (.inr hk)) (fun k hk => ?_) hk
    have hmem := (hover.directories k).1 (h.directory k hk)
    obtain ⟨entry, hentry, hkey⟩ := Except.exists_of_mem_mapM hdirectories hmem
    obtain ⟨j, old, hj, rfl⟩ := Store.mem_directories_exportSnapshot.1 hentry
    refine ⟨j, has_of_get hj, ?_⟩
    rw [← hvalid.directoryPath j old hj]
    exact hkey

/-- With stable keys the snapshot is the store. -/
theorem hasFile_iff_of_stable (hload : Store.loadSnapshot now snapshot = .ok store)
    (hread : readSnapshot localeLe now snapshot = .ok t) (hstable : store.Stable) (k : Text) :
    t.HasFile k ↔ store.files.has k = true := by
  have hentries := (SnapshotTree.entries_of_stable hload hstable hread).2
  rw [has_iff]
  constructor
  · rintro ⟨file, hfile, hpath⟩
    obtain ⟨record, hrecord, -⟩ := (hentries k file.bytes).1 ⟨file, hfile, hpath, rfl⟩
    exact ⟨record, hrecord⟩
  · rintro ⟨record, hrecord⟩
    obtain ⟨file, hfile, hpath, -⟩ := (hentries k record.content).2 ⟨record, hrecord, rfl⟩
    exact ⟨file, hfile, hpath⟩

/-- A package file that the snapshot does not hide is there, though perhaps with the bytes of
another one of its name. -/
theorem Overlaid.exists_package (hover : Overlaid t packageFiles w) {bytes : Bytes}
    (hmem : (k, bytes) ∈ packageFiles) (hno : ¬t.HasFile k) :
    ∃ bytes', (k, bytes') ∈ packageFiles ∧ w.fileAt k = some ⟨bytes', some k, none, true⟩ := by
  rcases hover.files k with ⟨file, hfile, hpath, -⟩ | ⟨-, hpackage⟩ | ⟨-, hnone, -⟩
  · exact absurd ⟨file, hfile, hpath⟩ hno
  · exact hpackage
  · exact absurd hmem (hnone bytes)

/-- The parent of a key, or the root. -/
theorem scratchParentStatus_of_parentPath {m : Mount ℕ} (k : Text)
    (hdir : m.dirs.has (parentPath k) = true) (hfile : m.files.has (parentPath k) = false) :
    m.scratchParentStatus k = .ok () := by
  refine (m.scratchParentStatus_eq_ok_iff k).2 fun parent hparent => ?_
  rw [Store.parentPath_of_parent? hparent] at hdir hfile
  exact ⟨hfile, hdir⟩

theorem Composed.compatible (h : Composed store packageFiles w)
    (hload : Store.loadSnapshot now snapshot = .ok store)
    (hread : readSnapshot localeLe now snapshot = .ok t) (hover : Overlaid t packageFiles w) :
    Compatible store packageFiles := by
  have hstable := h.stable hload hread hover
  have hhas := hasFile_iff_of_stable hload hread hstable
  have hdirectories := (SnapshotTree.entries_of_stable hload hstable hread).1
  have hvalid := Store.valid_loadSnapshot hload
  -- a file of the package is where no directory is
  have hfree : ∀ file ∈ packageFiles, store.files.has file.1 = false →
      store.directories.has file.1 = false := by
    intro file hmem hno
    obtain ⟨bytes', -, hfile⟩ := hover.exists_package hmem
      fun hin => by simp [(hhas file.1).1 hin] at hno
    by_contra hdir
    have hnot := h.disjoint file.1 (has_iff_fileAt.2 ⟨_, hfile⟩)
    rw [h.directory file.1 (by simpa using hdir)] at hnot
    cases hnot
  refine ⟨fun file hmem hno => ?_, fun file hmem file' hmem' heq hno => ?_⟩
  · obtain ⟨record, -, -, hopens⟩ := h.package file hmem hno (hfree file hmem hno)
    obtain ⟨hkey, hcheck, -⟩ := (opensByKey_iff hover.writable
      (h.directory [] hvalid.root)).1 hopens
    refine ⟨hkey, hfree file hmem hno, ?_⟩
    obtain ⟨-, -, hstatus⟩ := (w.workspaceMount.checkOpenFile_eq_ok_iff file.1).1 hcheck
    cases hparent : SepPath.parent? '/' file.1 with
    | none =>
      rw [parentPath, hparent]
      exact hvalid.root
    | some parent =>
      obtain ⟨-, hdir⟩ := (w.workspaceMount.scratchParentStatus_eq_ok_iff file.1).1 hstatus parent
        hparent
      rw [Store.parentPath_of_parent? hparent]
      exact (hdirectories parent).1 ((hover.directories parent).1 hdir)
  · obtain ⟨record, hrecord, hbytes, -⟩ := h.package file hmem hno (hfree file hmem hno)
    rw [heq] at hno hrecord
    obtain ⟨record', hrecord', hbytes', -⟩ := h.package file' hmem' hno (hfree file' hmem' hno)
    rw [← hbytes, ← hbytes', Option.some.inj (hrecord.symm.trans hrecord')]

/-- A file of the workspace is one of the store or one of the package. -/
theorem Overlaid.file_cases (hover : Overlaid t packageFiles w)
    (hload : Store.loadSnapshot now snapshot = .ok store)
    (hread : readSnapshot localeLe now snapshot = .ok t) (hstable : store.Stable)
    (hk : w.workspaceMount.files.has k = true) :
    store.files.has k = true ∨
      (store.files.has k = false ∧ ∃ bytes, (k, bytes) ∈ packageFiles) := by
  have hhas := hasFile_iff_of_stable hload hread hstable k
  rcases hover.files k with ⟨file, hfile, hpath, -⟩ | ⟨hno, bytes, hmem, -⟩ | ⟨-, -, hnone⟩
  · exact .inl (hhas.1 ⟨file, hfile, hpath⟩)
  · exact .inr ⟨by simpa [hhas] using hno, bytes, hmem⟩
  · obtain ⟨record, hrecord⟩ := has_iff_fileAt.1 hk
    cases hrecord.symm.trans hnone

theorem Compatible.composed (h : Compatible store packageFiles) (hstable : store.Stable)
    (hload : Store.loadSnapshot now snapshot = .ok store)
    (hread : readSnapshot localeLe now snapshot = .ok t) (hover : Overlaid t packageFiles w) :
    Composed store packageFiles w := by
  have hhas := hasFile_iff_of_stable hload hread hstable
  obtain ⟨hdirectories, hentries⟩ := SnapshotTree.entries_of_stable hload hstable hread
  have hvalid := Store.valid_loadSnapshot hload
  have hdirs : ∀ k, w.workspaceMount.dirs.has k = true ↔ store.directories.has k = true := fun k =>
    (hover.directories k).trans (hdirectories k)
  have hcases := fun k => hover.file_cases hload hread hstable (k := k)
  have hdisjoint : ∀ k, w.workspaceMount.files.has k = true → store.directories.has k = false := by
    intro k hk
    rcases hcases k hk with hstored | ⟨hno, bytes, hmem⟩
    · exact hvalid.disjoint k hstored
    · exact (h.free _ hmem hno).2.1
  -- whatever holds a file is a directory of the store
  have hparent : ∀ k, w.workspaceMount.files.has k = true →
      store.directories.has (parentPath k) = true := by
    intro k hk
    rcases hcases k hk with hstored | ⟨hno, bytes, hmem⟩
    · exact hvalid.fileParent k hstored
    · exact (h.free _ hmem hno).2.2
  have hleaf : ∀ f k, w.workspaceMount.files.has f = true →
      w.workspaceMount.files.has k = true ∨ w.workspaceMount.dirs.has k = true →
      ¬SepPath.Below '/' f k := by
    intro f k hf hk hbelow
    have hnot := hdisjoint f hf
    have hdir : store.directories.has f = true := by
      rcases hk with hk | hk
      · obtain ⟨parent, hp, hat⟩ := SepPath.exists_parent?_of_below hbelow
        have hdir := hparent k hk
        rw [Store.parentPath_of_parent? hp] at hdir
        rcases hat with rfl | hbelow'
        · exact hdir
        · exact hvalid.has_of_below hbelow' (.inl hdir)
      · exact hvalid.has_of_below hbelow (.inl ((hdirs k).1 hk))
    rw [hdir] at hnot
    cases hnot
  refine ⟨fun k hk => ?_, fun f k hf hk => hleaf f k hf (.inl hk), fun k hk => (hdirs k).2 hk,
    fun k stored hstored => ?_, fun file hmem hno hnodir => ?_⟩
  · by_contra hdir
    have hnot := hdisjoint k hk
    rw [(hdirs k).1 (by simpa using hdir)] at hnot
    cases hnot
  · rcases hover.files k with ⟨file, hfile, hpath, hat⟩ | ⟨hno, -⟩ | ⟨hno, -⟩
    · obtain ⟨stored', hstored', hcontent⟩ := (hentries k file.bytes).1 ⟨file, hfile, hpath, rfl⟩
      obtain rfl := Option.some.inj (hstored.symm.trans hstored')
      exact ⟨file.record, hat, rfl, hcontent.symm⟩
    · exact absurd ((hhas k).2 (has_of_get hstored)) hno
    · exact absurd ((hhas k).2 (has_of_get hstored)) hno
  · obtain ⟨bytes', hmem', hat⟩ := hover.exists_package hmem
      fun hin => by simp [(hhas file.1).1 hin] at hno
    obtain ⟨hkey, -, hdir⟩ := h.free file hmem hno
    have hfile : w.workspaceMount.files.has file.1 = true := has_iff_fileAt.2 ⟨_, hat⟩
    refine ⟨_, hat, (h.functional file hmem _ hmem' rfl hno).symm, ?_⟩
    refine (opensByKey_iff hover.writable ((hdirs []).2 hvalid.root)).2 ⟨hkey, ?_, hfile⟩
    refine (w.workspaceMount.checkOpenFile_eq_ok_iff file.1).2 ⟨?_, ?_, ?_⟩
    · by_contra hin
      rw [(hdirs file.1).1 (by simpa using hin)] at hnodir
      cases hnodir
    · refine (w.workspaceMount.pathHasChildren_eq_false_iff file.1).2 fun k hbelow => ⟨?_, ?_⟩
      · by_contra hin
        exact hleaf file.1 k hfile (.inr (by simpa using hin)) hbelow
      · by_contra hin
        exact hleaf file.1 k hfile (.inl (by simpa using hin)) hbelow
    · refine scratchParentStatus_of_parentPath file.1 ((hdirs _).2 hdir) ?_
      by_contra hin
      have hnot := hdisjoint _ (by simpa using hin)
      rw [hdir] at hnot
      cases hnot

/-- A composition is what it should be exactly when the names of the store are stable and the
package fits into its directories. -/
theorem composed_iff (hload : Store.loadSnapshot now snapshot = .ok store)
    (composition : SnapshotTree → World)
    (hover : ∀ t, readSnapshot localeLe now snapshot = .ok t →
      Overlaid t packageFiles (composition t)) :
    (∃ t, readSnapshot localeLe now snapshot = .ok t ∧
        Composed store packageFiles (composition t)) ↔
      store.Stable ∧ Compatible store packageFiles := by
  constructor
  · rintro ⟨t, hread, h⟩
    exact ⟨h.stable hload hread (hover t hread), h.compatible hload hread (hover t hread)⟩
  · rintro ⟨hstable, hcompatible⟩
    obtain ⟨t, hread⟩ : ∃ t, readSnapshot localeLe now snapshot = .ok t :=
      exists_readSnapshot_of_stable hload hstable
    exact ⟨t, hread, hcompatible.composed hstable hload hread (hover t hread)⟩

end

/-- A run begins with a composition. -/
theorem overlaid_boot {t : SnapshotTree} (hroot : [] ∈ t.directories)
    (files rootFiles : List PackageFile) (cwd : Option Text) (stdin : Bytes) :
    Overlaid t (files.map fun file => (file.path, file.bytes))
      (System.boot (some t) files rootFiles cwd stdin).world := by
  have hshares := (orderly_boot t files rootFiles cwd stdin).shares
  have hdirs := workspaceDirs_eq hshares
  refine ⟨rfl, fun k => ?_, fun k => ?_⟩
  · rw [← hdirs]
    refine (workspaceDirs_mounted t files rootFiles k).trans (or_iff_right_of_imp ?_)
    rintro rfl
    exact hroot
  · have hfile : (System.boot (some t) files rootFiles cwd stdin).world.fileAt k =
        (t.fileMap.get k).or
          ((files.find? fun file => file.path = k).map FileTable.fallbackRecord) :=
      (workspaceFile_eq_fileAt hshares k).symm.trans (workspaceFile_mounted t files rootFiles k)
    rw [hfile]
    cases hget : t.fileMap.get k with
    | some =>
      have hmem := (exists_mem_of_get_setAll _ _ hget).resolve_right (by simp)
      obtain ⟨file, hfile, heq⟩ := List.mem_map.1 hmem
      obtain ⟨hpath, hrecord⟩ := Prod.mk.inj heq
      exact .inl ⟨file, hfile, hpath, congrArg some hrecord.symm⟩
    | none =>
      have hno : ¬t.HasFile k := by
        rintro ⟨file, hfile, hpath⟩
        have hhas : t.fileMap.has k = true :=
          (has_ofList _ k).2 (List.mem_map.2 ⟨_, List.mem_map_of_mem hfile, hpath⟩)
        rw [(has_eq_false_iff _ k).2 hget] at hhas
        cases hhas
      rw [Option.none_or]
      cases hfind : files.find? fun file => file.path = k with
      | some file =>
        have hpath : file.path = k := by simpa using List.find?_some hfind
        refine .inr (.inl ⟨hno, file.bytes, ?_, ?_⟩)
        · exact List.mem_map.2 ⟨file, List.mem_of_find?_eq_some hfind, by rw [hpath]⟩
        · rw [Option.map_some, FileTable.fallbackRecord, hpath]
      | none =>
        refine .inr (.inr ⟨hno, fun bytes hmem => ?_, rfl⟩)
        obtain ⟨file, hfile, heq⟩ := List.mem_map.1 hmem
        have hother := List.find?_eq_none.1 hfind file hfile
        exact hother (by simpa using (Prod.mk.inj heq).1)

/-- So does what follows a child command that has returned a snapshot. -/
theorem overlaid_import (hw : w.Importing) (hwritable : w.writable = true) (t : SnapshotTree) :
    Overlaid t w.fallbackFiles (w.importWasiWorkspaceSnapshot t) := by
  have hfilled := filled_importWasiWorkspaceSnapshot hw hwritable t
  refine ⟨(w.imported_importWasiWorkspaceSnapshot t).writable.trans hwritable, hfilled.directories,
    fun k => ?_⟩
  refine (hfilled.files k).imp_right (Or.imp_right ?_)
  rintro ⟨hno, hnone⟩
  exact ⟨fun hfile => hno (.inl hfile), fun bytes hmem => hno (.inr ⟨bytes, hmem⟩), hnone⟩

end World

namespace System

/-- For every snapshot that the store accepts: the workspace that a run starts with, and the one
that it goes on with when a child returns the snapshot, are what they should be exactly when the
names of the snapshot are stable and the files of the package fit into its directories. -/
theorem composition_iff {localeLe : Text → Text → Bool} {now : ℕ} {snapshot : Snapshot}
    {store : Store}
    (hload : Store.loadSnapshot now snapshot = .ok store) :
    (∀ (files rootFiles : List PackageFile) (cwd : Option Text) (stdin : Bytes),
      ((∃ t, readSnapshot localeLe now snapshot = .ok t ∧
          World.Composed store (files.map fun file => (file.path, file.bytes))
            (boot (some t) files rootFiles cwd stdin).world) ↔
        store.Stable ∧ World.Compatible store (files.map fun file => (file.path, file.bytes)))) ∧
    ∀ (start : Option World.SnapshotTree) (files rootFiles : List PackageFile) (cwd : Option Text)
      (stdin : Bytes) (s : System), Run step SparesParent (boot start files rootFiles cwd stdin) s →
      s.world.writable = true →
      ((∃ t, readSnapshot localeLe now snapshot = .ok t ∧
          World.Composed store s.world.fallbackFiles (s.world.importWasiWorkspaceSnapshot t)) ↔
        store.Stable ∧ World.Compatible store s.world.fallbackFiles) := by
  constructor
  · intro files rootFiles cwd stdin
    exact World.composed_iff hload
      (fun t => (boot (some t) files rootFiles cwd stdin).world) fun t hread =>
        World.overlaid_boot (World.SnapshotTree.root_mem hread) files rootFiles cwd stdin
  · intro start files rootFiles cwd stdin s hrun hwritable
    have hcoherent := coherent_of_run hrun
    have hworld : s.world.Apart := hcoherent.apart s.runtime List.mem_cons_self
    exact World.composed_iff hload
      (fun t => s.world.importWasiWorkspaceSnapshot t) fun t _ =>
        World.overlaid_import ⟨hcoherent.sharesMaps, hworld, hcoherent.named⟩ hwritable t

theorem loadSnapshot_emptySnapshot :
    Store.loadSnapshot 0 emptySnapshot = .ok (Store.empty 0) := rfl

theorem stable_empty : (Store.empty 0).Stable := by
  intro k hk
  have hnil : k = [] := by
    rcases hk with hk | hk
    · cases hk
    · rw [Store.empty, has_set, has_empty, Bool.or_false, decide_eq_true_eq] at hk
      exact hk
  rw [hnil]
  decide

/-- A package with one file next to an empty workspace. -/
theorem composed_singleFile : ∃ t, readSnapshot (fun _ _ => true) 0 emptySnapshot = .ok t ∧
    World.Composed (Store.empty 0) [("f".toList, [1])]
      (boot (some t) [⟨"f".toList, [1], by decide⟩] [] none []).world := by
  refine ((composition_iff loadSnapshot_emptySnapshot).1
    [⟨"f".toList, [1], by decide⟩] [] none []).2 ⟨stable_empty, ?_, ?_⟩
  · intro file hfile _
    obtain rfl := List.mem_singleton.1 hfile
    decide
  · intro file hfile file' hfile' _ _
    rw [List.mem_singleton.1 hfile, List.mem_singleton.1 hfile']

/-- A package with one file in a directory, which the guest cannot open. -/
theorem not_composed_nestedFile : Store.loadSnapshot 0 emptySnapshot = .ok (Store.empty 0) ∧
    readSnapshot (fun _ _ => true) 0 emptySnapshot = .ok ⟨[[]], []⟩ ∧
    ¬World.Composed (Store.empty 0) [("d/f".toList, [1])]
      (boot (some ⟨[[]], []⟩) [⟨"d/f".toList, [1], by decide⟩] [] none []).world := by
  refine ⟨loadSnapshot_emptySnapshot, readSnapshot_emptySnapshot, fun h => ?_⟩
  obtain ⟨record, -, -, fd, file, hok, -⟩ := h.package _ (List.mem_singleton_self _) rfl rfl
  have hrefused : ((boot (some ⟨[[]], []⟩) [⟨"d/f".toList, [1], by decide⟩] []
      none []).world.pathOpen workspaceFd 0 "d/f".toList 0 0 0 0).2 = .error .noent := by decide
  cases hrefused.symm.trans hok

end System

end WasmHost

import WasmHost.Wasi.WorkspaceExport

/-!
# The workspace that a run starts with

A writable workspace is mounted from a snapshot: its entries become file objects under their keys,
and the package files fill the keys that are left.

* `workspaceFile_mounted`: the file objects by key.
* `exportedFile_mounted`: what is not the package's is what the snapshot holds.
-/

namespace WasmHost

open OrdMap

namespace FileTable

/-- The file object under a key of the table. -/
def fileAt (t : FileTable) (k : Text) : Option FileRecord := (t.files.get k).map t.records.get

/-- The object that a package file becomes where it fills a key. -/
def fallbackRecord (file : PackageFile) : FileRecord := ⟨file.bytes, some file.path, none, true⟩

variable {t : FileTable}

theorem Keyed.fileAt_put (ht : t.Keyed) (path : Text) (record : FileRecord) (k : Text) :
    (t.put path record).fileAt k = if k = path then some record else t.fileAt k := by
  have hfiles : (t.put path record).files = t.files.set path t.records.next := rfl
  have hrecords : (t.put path record).records = t.records.alloc record := rfl
  rw [fileAt, hfiles, hrecords, get_set]
  split
  · rw [Option.map_some, Heap.get_alloc_next]
  · exact Option.map_congr fun r hr => Heap.get_alloc_of_lt _ _ (ht k r hr).1

/-- The loop over the files of a snapshot fills the table as it would fill a map. -/
theorem fileAt_foldl_putSnapshotFile (ht : t.Keyed) {m : OrdMap Text FileRecord}
    (hm : ∀ k, t.fileAt k = m.get k) (files : List World.SnapshotFile) :
    (files.foldl putSnapshotFile t).Keyed ∧ ∀ k, (files.foldl putSnapshotFile t).fileAt k =
      (m.setAll (files.map fun file => (file.path, file.record))).get k := by
  induction files generalizing t m with
  | nil => exact ⟨ht, hm⟩
  | cons file files ih =>
    refine ih (t := t.putSnapshotFile file) (ht.put rfl) fun k => ?_
    rw [get_set, ← hm k]
    exact ht.fileAt_put file.path file.record k

/-- The loop over the package files gives each key that is left the first of its files. -/
theorem fileAt_foldl_putFallbackFile (ht : t.Keyed) (files : List PackageFile) :
    (files.foldl putFallbackFile t).Keyed ∧ ∀ k, (files.foldl putFallbackFile t).fileAt k =
      (t.fileAt k).or ((files.find? fun file => file.path = k).map fallbackRecord) := by
  induction files generalizing t with
  | nil => exact ⟨ht, fun k => by simp⟩
  | cons file files ih =>
    obtain ⟨hkeyed, hrest⟩ := ih (ht.putFallbackFile file)
    refine ⟨hkeyed, fun k => (hrest k).trans ?_⟩
    rw [List.find?_cons]
    unfold FileTable.putFallbackFile
    by_cases hk : file.path = k
    · subst hk
      simp only [decide_true, Option.map_some]
      split
      next hhas =>
        -- the key was filled before
        obtain ⟨r, hr⟩ := (has_iff _ _).1 hhas
        rw [fileAt, hr]
        rfl
      next hhas =>
        have hnone : t.fileAt file.path = none := by
          rw [fileAt, (has_eq_false_iff _ _).1 (by simpa using hhas)]
          rfl
        rw [ht.fileAt_put, if_pos rfl, hnone]
        rfl
    · simp only [hk, decide_false]
      split
      · rfl
      · rw [ht.fileAt_put, if_neg fun h => hk h.symm]

end FileTable

/-- The objects of a mounted table are found under their keys. -/
theorem Host.workspaceFile_ofMounts {table : FileTable} (htable : table.Keyed)
    (dirs : OrdSet Text) (writable : Bool) (rootFiles : List PackageFile) (k : Text) :
    (Host.ofMounts table dirs writable rootFiles).workspaceFile k = table.fileAt k := by
  have hextends := FileTable.extends_readOnlyPackageRootMount table.records rootFiles
  have hfiles : (Host.ofMounts table dirs writable rootFiles).workspaceFiles = table.files := rfl
  rw [workspaceFile, hfiles]
  exact Option.map_congr fun r hr => hextends.2 r (htable k r hr).1

section

variable (snapshot : World.SnapshotTree) (files rootFiles : List PackageFile)

/-- The objects of the snapshot by key; where it gives a key twice, the last one counts. -/
def World.SnapshotTree.fileMap (snapshot : World.SnapshotTree) : OrdMap Text FileRecord :=
  OrdMap.ofList (snapshot.files.map fun file => (file.path, file.record))

variable (k : Text)

/-- The workspace holds the files of the snapshot, and the package files where it has none. -/
theorem workspaceFile_mounted :
    (createWasiWorkspaceMount (some snapshot) files rootFiles).workspaceFile k =
      (snapshot.fileMap.get k).or
        ((files.find? fun file => file.path = k).map FileTable.fallbackRecord) := by
  obtain ⟨hstored, hfile⟩ := FileTable.fileAt_foldl_putSnapshotFile
    (FileTable.keyed_empty Heap.empty) (m := OrdMap.empty) (fun _ => rfl) snapshot.files
  obtain ⟨hkeyed, hfallback⟩ := FileTable.fileAt_foldl_putFallbackFile hstored files
  exact (Host.workspaceFile_ofMounts hkeyed _ _ _ k).trans
    ((hfallback k).trans (congrArg (Option.or · _) (hfile k)))

/-- Every file of the snapshot is the guest's own. -/
theorem fallback_of_get_fileMap {k : Text} {record : FileRecord}
    (h : snapshot.fileMap.get k = some record) :
    record.fallback = false ∧ record.path = some k := by
  have hmem := (exists_mem_of_get_setAll _ _ h).resolve_right (by simp)
  obtain ⟨file, -, heq⟩ := List.mem_map.1 hmem
  obtain ⟨rfl, rfl⟩ := Prod.mk.inj heq
  exact ⟨rfl, rfl⟩

theorem exportedFile_mounted :
    (createWasiWorkspaceMount (some snapshot) files rootFiles).exportedFile k =
      snapshot.fileMap.get k := by
  rw [Host.exportedFile, workspaceFile_mounted]
  cases h : snapshot.fileMap.get k with
  | some => simp [(fallback_of_get_fileMap snapshot h).1]
  | none =>
    cases files.find? fun file => file.path = k with
    | none | some => rfl

theorem workspaceDirs_mounted :
    (createWasiWorkspaceMount (some snapshot) files rootFiles).workspaceDirs.has k = true ↔
      k = [] ∨ k ∈ snapshot.directories := by
  have hdirs : (createWasiWorkspaceMount (some snapshot) files rootFiles).workspaceDirs =
      OrdMap.ofList (([], ()) :: snapshot.directories.map fun path => (path, ())) := rfl
  rw [hdirs, has_ofList]
  simp

/-- Before the first call every object of the workspace record carries its key. -/
theorem named_mounted : (createWasiWorkspaceMount (some snapshot) files rootFiles).Named := by
  intro k record hk
  rw [workspaceFile_mounted, Option.or_eq_some_iff] at hk
  rcases hk with hfile | ⟨-, hfallback⟩
  · exact (fallback_of_get_fileMap snapshot hfile).2
  · obtain ⟨file, hfind, rfl⟩ := Option.map_eq_some_iff.1 hfallback
    have hpath := List.find?_some hfind
    rw [decide_eq_true_eq] at hpath
    exact congrArg some hpath

end

end WasmHost

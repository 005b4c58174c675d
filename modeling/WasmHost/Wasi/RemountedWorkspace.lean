import WasmHost.Wasi.FlushableTree

/-!
# The workspace of the next run

The next run mounts what the last one has exported, with the same package files. A package file that
is the guest's own by then comes back as it was left, and one that nobody has touched is filled in
again. But the export has no word for a package file that is gone: the next run fills it in, too.

* `Host.Persists`: the next run sees the tree that this one has left.
* `World.persists_of_persistSafe`: along calls that neither remove nor move a package file away,
  every state persists.
-/

namespace WasmHost

namespace Host

variable (host : Host) (files : List PackageFile)

/-- The workspace that is exported. -/
def workspaceTree : Mount ℕ := ⟨host.workspaceFiles, host.workspaceDirs⟩

/-- The guest finds the same kinds under the same paths, and the same bytes in the files. -/
structure SameTree (host' : Host) : Prop where
  kinds : ∀ k, host'.workspaceTree.pathKind k = host.workspaceTree.pathKind k
  bytes : ∀ k, (host'.workspaceFile k).map FileRecord.bytes =
    (host.workspaceFile k).map FileRecord.bytes

/-- The next run can be mounted from the export, and sees the same tree. -/
def Persists (localeLe : Text → Text → Bool) (now : ℕ) (rootFiles : List PackageFile) : Prop :=
  ∃ t, readSnapshot localeLe now (host.exportWasiWorkspaceSnapshot localeLe) = .ok t ∧
    host.SameTree (createWasiWorkspaceMount (some t) files rootFiles)

end Host

/-- The path is one of the package. -/
def PackagePath (files : List PackageFile) (k : Text) : Prop := ∃ file ∈ files, file.path = k

/-- Every package file that is not the guest's own is as the package has it, and none is gone. -/
structure Host.KeepsPackage (host : Host) (files : List PackageFile) : Prop where
  fallback : ∀ k record, host.workspaceFile k = some record → record.fallback = true →
    ∃ file, (files.find? fun file => file.path = k) = some file ∧ file.bytes = record.bytes
  present : ∀ k, PackagePath files k → ∃ record, host.workspaceFile k = some record

theorem packagePath_iff {files : List PackageFile} {k : Text} :
    PackagePath files k ↔ ∃ file, (files.find? fun file => file.path = k) = some file := by
  rw [← Option.isSome_iff_exists, List.find?_isSome]
  simp [PackagePath]

/-- A store with stable names can be mounted. -/
theorem exists_readSnapshot_of_stable {localeLe : Text → Text → Bool} {now : ℕ}
    {snapshot : Snapshot}
    {store : Store} (hload : Store.loadSnapshot now snapshot = .ok store) (hstable : store.Stable) :
    ∃ t, readSnapshot localeLe now snapshot = .ok t := by
  have hvalid := Store.valid_loadSnapshot hload
  obtain ⟨directories, hdirectories⟩ :
    ∃ directories, (store.exportSnapshot localeLe).directories.mapM
      (fun entry => normalizeWorkspacePath entry.path) = .ok directories := by
    refine Except.exists_mapM_eq_ok fun entry hentry => ?_
    obtain ⟨k, record, hk, rfl⟩ := Store.mem_directories_exportSnapshot.1 hentry
    refine ⟨k, ?_⟩
    rw [hvalid.directoryPath k record hk]
    exact hstable k (.inr (OrdMap.has_of_get hk))
  obtain ⟨files, hfiles⟩ : ∃ files,
      (store.exportSnapshot localeLe).files.mapM readSnapshotFile = .ok files := by
    refine Except.exists_mapM_eq_ok fun entry hentry => ?_
    obtain ⟨k, record, hk, rfl⟩ := Store.mem_files_exportSnapshot.1 hentry
    refine ⟨⟨k, record.content, record.mtimeMs⟩, readSnapshotFile_eq_ok_iff.2 ⟨?_, rfl, rfl⟩⟩
    rw [hvalid.filePath k record hk]
    exact hstable k (.inl (OrdMap.has_of_get hk))
  exact ⟨⟨directories, files⟩, readSnapshot_eq_ok_iff.2 ⟨store, hload, hdirectories, hfiles⟩⟩

namespace Mount

variable {β : Type}

/-- Which kinds the keys have depends on which keys there are. -/
theorem pathKind_congr {m m' : Mount β} (hfiles : ∀ k, m'.files.has k = m.files.has k)
    (hdirs : ∀ k, m'.dirs.has k = m.dirs.has k) (k : Text) : m'.pathKind k = m.pathKind k := by
  have hchildren : m'.pathHasChildren k = m.pathHasChildren k := by
    rw [Bool.eq_iff_iff, pathHasChildren_iff, pathHasChildren_iff]
    simp only [hfiles, hdirs]
  rw [pathKind, pathKind, hfiles, hdirs, hchildren]

end Mount

namespace Host

variable {host : Host}

theorem has_workspaceFiles (k : Text) :
    host.workspaceFiles.has k = ((host.workspaceFile k).map FileRecord.bytes).isSome := by
  rw [workspaceFile, Option.isSome_map, Option.isSome_map, OrdMap.has]

theorem sameTree_of_bytes {host' : Host}
    (hbytes : ∀ k, (host'.workspaceFile k).map FileRecord.bytes =
      (host.workspaceFile k).map FileRecord.bytes)
    (hdirs : ∀ k, host'.workspaceDirs.has k = host.workspaceDirs.has k) : host.SameTree host' := by
  refine ⟨Mount.pathKind_congr (fun k => ?_) hdirs, hbytes⟩
  exact (has_workspaceFiles k).trans ((congrArg Option.isSome (hbytes k)).trans
    (has_workspaceFiles k).symm)

/-- The store holds the guest's files, and the package fills in the others. -/
theorem KeepsPackage.persists {files : List PackageFile} (h : host.KeepsPackage files)
    (hstorable : host.Storable) (hnamed : host.Named) (htimed : host.Timed)
    (localeLe : Text → Text → Bool) (now : ℕ) (rootFiles : List PackageFile) :
    host.Persists files localeLe now rootFiles := by
  obtain ⟨store, hload, hheld⟩ := hstorable.exists_loadSnapshot hnamed htimed localeLe now
  have hvalid := Store.valid_loadSnapshot hload
  have hexported : ∀ k stored, store.files.get k = some stored →
      ∃ record, host.exportedFile k = some record ∧ record.bytes = stored.content :=
    fun k stored hk =>
      (hheld.files k stored.content).1 ⟨stored, hk, rfl, hvalid.filePath k stored hk⟩
  have hstable : store.Stable := by
    rintro k (hk | hk)
    · obtain ⟨stored, hstored⟩ := (OrdMap.has_iff _ _).1 hk
      obtain ⟨record, hrecord, -⟩ := hexported k stored hstored
      exact hstorable.names k (.inl (Option.isSome_iff_exists.2 ⟨record, hrecord⟩))
    · exact hstorable.names k (.inr ((hheld.directories k).symm.trans hk))
  obtain ⟨t, hread⟩ : ∃ t, readSnapshot localeLe now (host.exportWasiWorkspaceSnapshot localeLe) =
      .ok t := exists_readSnapshot_of_stable hload hstable
  refine ⟨t, hread, sameTree_of_bytes (fun k => ?_) fun k => ?_⟩
  · rw [workspaceFile_mounted, World.SnapshotTree.get_fileMap_of_stable hload hstable hread]
    cases hk : store.files.get k with
    | some stored =>
      obtain ⟨record, hrecord, hbytes⟩ := hexported k stored hk
      rw [(exportedFile_eq_some_iff.1 hrecord).1, Option.map_some, Option.map_some, hbytes]
      rfl
    | none =>
      -- what the store does not hold is no file of the guest
      have hown : ∀ record, host.workspaceFile k = some record → record.fallback = true := by
        intro record hrecord
        by_contra hfallback
        obtain ⟨stored, hstored, -⟩ := (hheld.files k record.bytes).2
          ⟨record, exportedFile_eq_some_iff.2 ⟨hrecord, by simpa using hfallback⟩, rfl⟩
        rw [hk] at hstored
        cases hstored
      rw [Option.map_none, Option.none_or]
      cases hfind : files.find? fun file => file.path = k with
      | some file =>
        obtain ⟨record, hrecord⟩ := h.present k (packagePath_iff.2 ⟨file, hfind⟩)
        obtain ⟨file', hfind', hbytes⟩ := h.fallback k record hrecord (hown record hrecord)
        obtain rfl := Option.some.inj (hfind.symm.trans hfind')
        rw [hrecord, Option.map_some, Option.map_some, Option.map_some, ← hbytes]
        rfl
      | none =>
        cases hrecord : host.workspaceFile k with
        | none => rfl
        | some record =>
          obtain ⟨file, hfind', -⟩ := h.fallback k record hrecord (hown record hrecord)
          rw [hfind] at hfind'
          cases hfind'
  · rw [workspaceDirs_eq_mounted hload hstable hread, hheld.directories]

end Host

/-! ### Calls -/

namespace World

/-- The edit leaves a file under every path of the package. -/
def SparesPackage (files : List PackageFile) : Mount.Edit ℕ → Prop
  | .removeFile path => ¬PackagePath files path
  | .renameFile source _ _ => ¬PackagePath files source
  | .renameDir source _ => ∀ k, PackagePath files k → ¬SepPath.AtOrBelow '/' source k
  | .createFile _ _ | .createDir _ | .removeDir _ => True

/-- A call that the store can follow, and that leaves the package in place. -/
structure PersistSafe (files : List PackageFile) (w : World) (c : Call) : Prop
    extends FlushSafe w c where
  package : ∀ e, w.Edits c .workspace e → SparesPackage files e

section

variable {w : World} (hw : w.Orderly) {files : List PackageFile} (h : w.host.KeepsPackage files)
    {k : Text}
include hw h

variable {c : Call}

/-- An edit that spares the package leaves a file where the package has one. -/
theorem present_perform {e : Mount.Edit ℕ} (hedit : w.Edits c .workspace e)
    (hcreate : ∀ path record, e ≠ .createFile path record) (hspares : SparesPackage files e)
    (hk : PackagePath files k) : ∃ record, (w.perform .workspace e).fileAt k = some record := by
  obtain ⟨old, hold⟩ := h.present k hk
  rw [workspaceFile_eq_fileAt hw.shares] at hold
  cases e with
  | createFile path file => exact absurd rfl (hcreate path file)
  | createDir => exact ⟨old, (fileAt_perform_createDir hedit k).trans hold⟩
  | removeFile path =>
    have hne : k ≠ path := by
      rintro rfl
      exact hspares hk
    rw [fileAt_perform_removeFile hedit, if_neg hne]
    exact ⟨old, hold⟩
  | removeDir => exact ⟨old, (fileAt_perform_removeDir hedit k).trans hold⟩
  | renameFile source target file =>
    have hne : k ≠ source := by
      rintro rfl
      exact hspares hk
    rw [fileAt_perform_renameFile hw hedit, if_neg hne]
    split
    · obtain ⟨moved, hmoved⟩ : ∃ moved, w.fileAt source = some moved := by
        cases hedit with
        | renameFile hkeys hget hallow => exact ⟨_, fileAt_eq_some_iff.2 ⟨_, hget, rfl⟩⟩
      rw [hmoved]
      exact ⟨_, rfl⟩
    · exact ⟨old, hold⟩
  | renameDir source target =>
    exact ⟨_, (fileAt_perform_renameDir hw hedit).2 ⟨k, old, hold,
      SepPath.move_of_not_atOrBelow target (hspares k hk), rfl⟩⟩

theorem present_call (hsafe : PersistSafe files w c) (hk : PackagePath files k) :
    ∃ record, (w.call c).fileAt k = some record := by
  obtain ⟨old, hold⟩ := h.present k hk
  rw [workspaceFile_eq_fileAt hw.shares] at hold
  have hshares := sharesMaps_call hw.shares c
  rcases call_workspace hw.toGuarded c with htouches | ⟨path, hedit, htouches⟩ |
    ⟨e, hc, hedit, hcall⟩
  · rcases htouches.fileAt hw.shares hshares k with ⟨hnone, -⟩ | ⟨_, new, -, hnew, -⟩
    · rw [hold] at hnone
      cases hnone
    · exact ⟨new, hnew⟩
  · have hcreated : (w.createFile .workspace path).SharesMaps := hw.shares
    rcases htouches.fileAt hcreated hshares k with ⟨hnone, -⟩ | ⟨_, new, -, hnew, -⟩
    · rw [fileAt_createFile hw.apart, hold] at hnone
      split at hnone <;> cases hnone
    · exact ⟨new, hnew⟩
  · rw [hcall]
    refine present_perform hw h hedit ?_ (hsafe.package e hedit) hk
    rintro path file rfl
    cases hedit <;> exact hc

theorem keepsPackage_call (hsafe : PersistSafe files w c) : (w.call c).host.KeepsPackage files := by
  have hafter := sharesMaps_call hw.shares c
  have hpackage : ∀ k record, w.fileAt k = some record → record.fallback = true →
      ∃ file, (files.find? fun file => file.path = k) = some file ∧ file.bytes = record.bytes :=
    fun k record hk => h.fallback k record ((workspaceFile_eq_fileAt hw.shares k).trans hk)
  refine ⟨fun k record hk hfallback => ?_, fun k hk => ?_⟩
  · rw [workspaceFile_eq_fileAt hafter] at hk
    cases descends_call hw c hk with
    | new hedit hmtime hown =>
      rw [hown] at hfallback
      cases hfallback
    | kept old hold hkept =>
      obtain rfl := hkept.content hfallback
      exact hpackage k record hold hfallback
    | renamed source file old hedit hold hrecord =>
      rw [hrecord] at hfallback
      cases hfallback
    | moved source target j old hedit hold hmove hrecord =>
      -- a package file stands under its own path, and is not moved
      subst hrecord
      obtain ⟨file, hfind, hbytes⟩ := hpackage j old hold hfallback
      have hstays : j = k := by
        rw [← hmove, SepPath.move_of_not_atOrBelow target
          (hsafe.package _ hedit j (packagePath_iff.2 ⟨file, hfind⟩))]
      exact ⟨file, hstays ▸ hfind, hbytes⟩
  · obtain ⟨record, hrecord⟩ := present_call hw h hsafe hk
    exact ⟨record, (workspaceFile_eq_fileAt hafter k).trans hrecord⟩

end

/-! ### Runs -/

theorem keepsPackage_mounted (t : SnapshotTree) (files rootFiles : List PackageFile) :
    (createWasiWorkspaceMount (some t) files rootFiles).KeepsPackage files := by
  refine ⟨fun k record hk hfallback => ?_, fun k hk => ?_⟩
  · rw [workspaceFile_mounted, Option.or_eq_some_iff] at hk
    rcases hk with hk | ⟨-, hk⟩
    · rw [(fallback_of_get_fileMap t hk).1] at hfallback
      cases hfallback
    · obtain ⟨file, hfind, rfl⟩ := Option.map_eq_some_iff.1 hk
      exact ⟨file, hfind, rfl⟩
  · obtain ⟨file, hfind⟩ := packagePath_iff.1 hk
    rw [workspaceFile_mounted, hfind, ← Option.isSome_iff_exists, Option.isSome_or]
    simp

/-- From a workspace that the store takes, along calls that the store can follow and that leave the
package in place, the next run sees the tree of every state. -/
theorem persists_of_persistSafe {localeLe : Text → Text → Bool} {mountTime : ℕ}
    {snapshot : Snapshot}
    {t : SnapshotTree} {files rootFiles : List PackageFile}
    (hread : readSnapshot localeLe mountTime snapshot = .ok t)
    (hstart : (createWasiWorkspaceMount (some t) files rootFiles).Storable)
    (cwd : Option Text) (stdin : Bytes) {calls : List Call}
    (hcalls : Along call (PersistSafe files)
      (System.boot (some t) files rootFiles cwd stdin).world calls) (now : ℕ) :
    Always call (fun w => w.host.Persists files localeLe now rootFiles)
      (System.boot (some t) files rootFiles cwd stdin).world calls := by
  have hkeeps : ∀ (w : World) (c : Call),
      w.Orderly ∧ w.host.Timed ∧ w.host.Storable ∧ w.host.KeepsPackage files →
      PersistSafe files w c → (w.call c).Orderly ∧ (w.call c).host.Timed ∧
        (w.call c).host.Storable ∧ (w.call c).host.KeepsPackage files :=
    fun w c ⟨hw, htimed, hstorable, hpackage⟩ hsafe =>
      ⟨hw.call c, timed_call hw htimed c, storable_call hw hstorable hsafe.toFlushSafe,
        keepsPackage_call hw hpackage hsafe⟩
  have halways := Always.of_along hkeeps ⟨orderly_boot t files rootFiles cwd stdin,
    timed_mounted hread files rootFiles, hstart, keepsPackage_mounted t files rootFiles⟩ hcalls
  exact halways.mono fun w ⟨hw, htimed, hstorable, hpackage⟩ =>
    hpackage.persists hstorable hw.hostNamed htimed localeLe now rootFiles

/-- The guest makes a directory next to the package file. -/
theorem persistSafe_createDirectory :
    PersistSafe [⟨"d/f".toList, [], by decide⟩] packagedStart
      (.pathCreateDirectory 3 "x".toList) := by
  refine ⟨⟨fun e he => ?_, fun k record hk hfallback hexports => ?_⟩, fun e he => ?_⟩
  · cases he with
    | @createDir _ _ _ base key hbase hkey hallow =>
      have hroot : packagedStart.mutableBase 3 "x".toList = .ok (.workspace, []) := by decide
      obtain ⟨-, rfl⟩ := Prod.mk.inj (Except.ok.inj (hroot.symm.trans hbase))
      have hname : packagedStart.resolveIn .workspace [] "x".toList = .ok "x".toList := by decide
      obtain rfl := Except.ok.inj (hname.symm.trans hkey)
      exact (by decide : StoreStable "x".toList)
  · obtain ⟨record', hrecord', hown⟩ := Host.exports_iff.1 hexports
    obtain ⟨r, hr, rfl⟩ := Option.map_eq_some_iff.1 hrecord'
    have hentries :
        (packagedStart.call (.pathCreateDirectory 3 "x".toList)).host.workspaceFiles.entries =
        [("d/f".toList, 0)] := by decide
    have hmem := (OrdMap.mem_entries _ _ _).2 hr
    rw [hentries, List.mem_singleton] at hmem
    obtain ⟨-, rfl⟩ := Prod.mk.inj hmem
    have hfallback : ((packagedStart.call (.pathCreateDirectory 3 "x".toList)).host.records.get
        0).fallback = true := by decide
    rw [hfallback] at hown
    cases hown
  · cases he with
    | createDir => trivial

theorem persists_of_persistSafe_packagedStart :
    Always call (fun w => w.host.Persists [⟨"d/f".toList, [], by decide⟩] (fun _ _ => true) 0 [])
      packagedStart [.pathCreateDirectory 3 "x".toList] := by
  have hsafe : Along call (PersistSafe [⟨"d/f".toList, [], by decide⟩]) packagedStart
      [.pathCreateDirectory 3 "x".toList] := ⟨persistSafe_createDirectory, trivial⟩
  exact persists_of_persistSafe System.readSnapshot_emptySnapshot storable_packagedStart none
    [] hsafe 0

/-- The guest deletes the package file, and the next run has it again. -/
theorem not_persists_unlinkPackageFile :
    readSnapshot (fun _ _ => true) 0 System.emptySnapshot = .ok ⟨[[]], []⟩ ∧
      ¬(runAll call packagedStart [.pathUnlinkFile 3 "d/f".toList]).host.Persists
        [⟨"d/f".toList, [], by decide⟩] (fun _ _ => true) 0 [] := by
  refine ⟨System.readSnapshot_emptySnapshot, ?_⟩
  rintro ⟨t, -, hsame⟩
  obtain ⟨record, hrecord⟩ := (keepsPackage_mounted t [⟨"d/f".toList, [], by decide⟩] []).present
    "d/f".toList ⟨_, List.mem_cons_self, rfl⟩
  have hgone : (runAll call packagedStart [.pathUnlinkFile 3 "d/f".toList]).host.workspaceFile
      "d/f".toList = none := by decide
  have hbytes := hsame.bytes "d/f".toList
  rw [hrecord, hgone] at hbytes
  cases hbytes

end World

end WasmHost

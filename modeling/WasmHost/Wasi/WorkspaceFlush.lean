import WasmHost.Wasi.DirtyMark
import WasmHost.Wasi.MountedWorkspace
import WasmHost.Workspace.SameStores

/-!
# What a run leaves in the store

A run with a workspace store is mounted from a snapshot, and at its end the workspace goes back into
the store. In the same thread this happens only if the workspace is dirty; behind a worker it
happens always. While the run goes on, the host may write to the store itself.

* `Session.FlushesOwn`: a run that changes nothing leaves the store as it is at that moment, and
  the two paths leave the same store.
* `Session.flushesOwn_iff`: that is so exactly when the run fails, changes something, or writes back
  what the store holds anyway.
-/

namespace WasmHost

open OrdMap

namespace Store

/-- The store with the timestamps of its directories set to 0. -/
def withoutTimes (s : Store) : Store :=
  { s with directories := s.directories.mapVals fun _ record => { record with mtimeMs := 0 } }

/-- The keys of the store are read back as they are from the way the store spells them. -/
def Stable (s : Store) : Prop :=
  ∀ k, s.files.has k = true ∨ s.directories.has k = true → StoreStable k

/-- `importSnapshot`: a snapshot that is refused leaves the store as it was. -/
def importSnapshot (s : Store) (now : ℕ) (snapshot : Snapshot) :
    Store × Except WorkspaceError Unit :=
  match loadSnapshot now snapshot with
  | .ok store => (store, .ok ())
  | .error e => (s, .error e)

end Store

/-- What the end of a run leaves in the store of its mount, and the snapshot of its result. The
mount of a run behind a worker has no store. -/
def workspaceResult (localeLe : Text → Text → Bool) (now : ℕ) (workspace : Host)
    (store : Option Store) : Option Store × Except WorkspaceError (Option Snapshot) :=
  if workspace.workspace.writable = false then (store, .ok none)
  else
    let workspaceSnapshot := workspace.exportWasiWorkspaceSnapshot localeLe
    match store with
    | some s =>
        if workspace.workspace.dirty then
          let imported := s.importSnapshot now workspaceSnapshot
          (some imported.1, imported.2.map fun _ => some workspaceSnapshot)
        else (some s, .ok (some workspaceSnapshot))
    | none => (none, .ok (some workspaceSnapshot))

/-- What the result of a worker leaves in the store of the page. -/
def commitWorkerWorkspaceResult (now : ℕ) (result : Option Snapshot)
    (workspaceStore : Option Store) :
    Option Store × Except WorkspaceError Unit :=
  match workspaceStore, result with
  | some s, some workspaceSnapshot =>
      let imported := s.importSnapshot now workspaceSnapshot
      (some imported.1, imported.2)
  | _, _ => (workspaceStore, .ok ())

/-- A run with the store it was mounted from. -/
structure Session where
  store : Store
  system : System

/-- What can happen while a run with a store goes on. -/
inductive SessionEvent
  | guest (e : Event)
  /-- The host calls the store. -/
  | host (c : TimedCall)

/-- A run ends with a result, also when the guest exits, or with an error. -/
inductive Ending
  | result
  | error
  deriving DecidableEq

namespace Session

/-- The session behind an event. -/
def step (s : Session) : SessionEvent → Session
  | .guest e => { s with system := s.system.step e }
  | .host c => { s with store := s.store.step c }

/-- A run behind a worker may bring a snapshot of its own; in the same thread the store counts. -/
def mountedSnapshot (localeLe : Text → Text → Bool) (store : Store)
    (workspaceSnapshot : Option Snapshot) : Snapshot :=
  workspaceSnapshot.getD (store.exportSnapshot localeLe)

/-- A run before its first call. -/
def mount (localeLe : Text → Text → Bool) (now : ℕ) (store : Store)
    (workspaceSnapshot : Option Snapshot) (files rootFiles : List PackageFile) (cwd : Option Text)
    (stdin : Bytes) : Except WorkspaceError Session := do
  let snapshot ← readSnapshot localeLe now (mountedSnapshot localeLe store workspaceSnapshot)
  return ⟨store, System.boot (some snapshot) files rootFiles cwd stdin⟩

variable (localeLe : Text → Text → Bool) (now : ℕ) (s : Session)

/-- The store after a run in the same thread. -/
def afterRun : Ending → Store
  | .result => (workspaceResult localeLe now s.system.host (some s.store)).1.getD s.store
  | .error => s.store

/-- The store after a run behind a worker. -/
def afterWorkerRun : Ending → Store
  | .result =>
      match (workspaceResult localeLe now s.system.host none).2 with
      | .ok result => (commitWorkerWorkspaceResult now result (some s.store)).1.getD s.store
      | .error _ => s.store
  | .error => s.store

/-- The event is not one of the guest that changes the workspace. -/
def Unchanged : SessionEvent → Prop
  | .guest e => s.system.host.SameWorkspace (s.system.step e).host
  | .host _ => True

/-- A run that changes nothing leaves the store as it is at that moment, and a run on both paths
leaves the same store on both. The paths run the same guest when no snapshot takes the place of the
store. -/
structure FlushesOwn (workspaceSnapshot : Option Snapshot) (events : List SessionEvent)
    (ending : Ending) : Prop where
  ownRun : workspaceSnapshot = none → Along step Unchanged s events →
    (runAll step s events).store.Same ((runAll step s events).afterRun localeLe now ending)
  ownWorkerRun : Along step Unchanged s events →
    (runAll step s events).store.Same ((runAll step s events).afterWorkerRun localeLe now ending)
  agree : workspaceSnapshot = none →
    ((runAll step s events).afterRun localeLe now ending).Same
      ((runAll step s events).afterWorkerRun localeLe now ending)

/-- The store holds what the run was mounted from, with the timestamps of its directories at 0; or,
for names that are not read back as they are, it holds what it makes of the workspace. -/
def HoldsMounted (mountTime : ℕ) (snapshot : Snapshot) : Prop :=
  ∀ mounted, Store.loadSnapshot mountTime snapshot = .ok mounted →
    (mounted.Stable → mounted.withoutTimes.Same s.store) ∧
      (¬mounted.Stable → ∀ store,
        Store.loadSnapshot now (s.system.host.exportWasiWorkspaceSnapshot localeLe) = .ok store →
          store.Same s.store)

end Session

/-! ### The mounted workspace and the store -/

namespace Host

variable {host host' : Host}

variable (h : host.SameWorkspace host')
include h

theorem SameWorkspace.exportedFile (k : Text) :
    host'.exportedFile k = host.exportedFile k := by
  rw [Host.exportedFile, Host.exportedFile, h.files]

theorem SameWorkspace.named (hnamed : host.Named) : host'.Named := by
  intro k record hk
  rw [h.files] at hk
  exact hnamed k record hk

theorem SameWorkspace.spelled (hspelled : host.Spelled) :
    host'.Spelled := by
  refine ⟨fun k hk => hspelled.directory k (h.dirs k ▸ hk), fun k record hk => ?_⟩
  rw [h.exportedFile] at hk
  exact hspelled.file k record hk

theorem SameWorkspace.treelike (htree : host.Treelike) :
    host'.Treelike := by
  constructor
  · intro k record hk
    rw [h.exportedFile] at hk
    rw [h.dirs]
    exact htree.kinds k record hk
  · intro k record hk
    rw [h.exportedFile] at hk
    rw [h.dirs]
    exact htree.fileParent k record hk
  · intro k hk
    rw [h.dirs] at hk ⊢
    exact htree.directoryParent k hk

end Host

namespace World

variable {localeLe : Text → Text → Bool} {mountTime : ℕ} {snapshot : Snapshot}
  {mounted : Store} {t : SnapshotTree}

/-- The files of a snapshot are those of the store that has loaded it, when names are read back as
they are. -/
theorem SnapshotTree.mem_files_of_stable
    (hload : Store.loadSnapshot mountTime snapshot = .ok mounted)
    (hstable : mounted.Stable) (h : readSnapshot localeLe mountTime snapshot = .ok t)
    {file : SnapshotFile} :
    file ∈ t.files ↔ ∃ record, mounted.files.get file.path = some record ∧
      file.bytes = record.content ∧ file.mtimeMs = record.mtimeMs := by
  obtain ⟨store, hload', -, hfiles⟩ := readSnapshot_eq_ok_iff.1 h
  obtain rfl := Except.ok.inj (hload'.symm.trans hload)
  have hvalid := Store.valid_loadSnapshot hload
  -- each file is spelled by its key, and read back under it
  have hkey : ∀ k record, store.files.get k = some record →
      normalizeWorkspacePath record.path = .ok k := by
    intro k record hk
    rw [hvalid.filePath k record hk]
    exact hstable k (.inl (has_of_get hk))
  constructor
  · intro hmem
    obtain ⟨entry, hentry, hread⟩ := Except.exists_of_mem_mapM hfiles hmem
    obtain ⟨k, record, hk, rfl⟩ := Store.mem_files_exportSnapshot.1 hentry
    obtain ⟨hpath, hbytes, hmtime⟩ := readSnapshotFile_eq_ok_iff.1 hread
    obtain rfl := Except.ok.inj ((hkey k record hk).symm.trans hpath)
    exact ⟨record, hk, hbytes, hmtime⟩
  · rintro ⟨record, hrecord, hbytes, hmtime⟩
    obtain ⟨file', hmem, hread⟩ := Except.exists_of_mem_of_mapM hfiles
      (Store.mem_files_exportSnapshot.2 ⟨file.path, record, hrecord, rfl⟩)
    obtain ⟨hpath', hbytes', hmtime'⟩ := readSnapshotFile_eq_ok_iff.1 hread
    have hpath : file.path = file'.path :=
      Except.ok.inj ((hkey file.path record hrecord).symm.trans hpath')
    have hsame : file = file' := by
      obtain ⟨path, bytes, mtimeMs⟩ := file
      obtain ⟨path', bytes', mtimeMs'⟩ := file'
      simp only [SnapshotFile.mk.injEq] at *
      exact ⟨hpath, hbytes.trans hbytes'.symm, hmtime.trans hmtime'.symm⟩
    rwa [hsame]

theorem SnapshotTree.get_fileMap_of_stable
    (hload : Store.loadSnapshot mountTime snapshot = .ok mounted) (hstable : mounted.Stable)
    (h : readSnapshot localeLe mountTime snapshot = .ok t) (k : Text) :
    t.fileMap.get k = (mounted.files.get k).map fun record =>
      ⟨record.content, some k, some record.mtimeMs, false⟩ := by
  have hmem : ∀ k record, (k, record) ∈ t.files.map (fun file => (file.path, file.record)) ↔
      ∃ stored, mounted.files.get k = some stored ∧
        record = ⟨stored.content, some k, some stored.mtimeMs, false⟩ := by
    intro k record
    rw [List.mem_map]
    constructor
    · rintro ⟨file, hfile, heq⟩
      obtain ⟨rfl, rfl⟩ := Prod.mk.inj heq
      obtain ⟨stored, hstored, hbytes, hmtime⟩ := (mem_files_of_stable hload hstable h).1 hfile
      exact ⟨stored, hstored, by rw [SnapshotFile.record, hbytes, hmtime]⟩
    · rintro ⟨stored, hstored, rfl⟩
      exact ⟨⟨k, stored.content, stored.mtimeMs⟩,
        (mem_files_of_stable hload hstable h).2 ⟨stored, hstored, rfl, rfl⟩, rfl⟩
  ext record
  rw [fileMap, get_ofList _ fun k a b ha hb => ?_, hmem, Option.map_eq_some_iff]
  · simp only [eq_comm]
  · obtain ⟨stored, hstored, rfl⟩ := (hmem k a).1 ha
    obtain ⟨stored', hstored', rfl⟩ := (hmem k b).1 hb
    rw [Option.some.inj (hstored.symm.trans hstored')]

end World

/-- Timestamps of files that a store has loaded are in range. -/
theorem Store.mtimeMs_lt_of_loadSnapshot {now : ℕ} {snapshot : Snapshot} {store : Store}
    (h : loadSnapshot now snapshot = .ok store) {k : Text} {record : StoreFile}
    (hk : store.files.get k = some record) : record.mtimeMs < 2 ^ 53 := by
  obtain ⟨-, directories, files, -, hfiles, rfl, -⟩ := loadSnapshot_eq_ok_iff.1 h
  have hmem := (exists_mem_of_get_setAll _ _ hk).resolve_right (by simp)
  obtain ⟨entry, -, hentry⟩ := Except.exists_of_mem_mapM hfiles hmem
  have htime := (loadFile_eq_ok_iff.1 hentry).2.2.2.1
  unfold nonNegativeTime at htime
  split at htime
  next number =>
    split at htime
    next hbounds =>
      rw [← Except.ok.inj htime]
      omega
    · cases htime
  · cases htime

section

variable {localeLe : Text → Text → Bool} {mountTime : ℕ} {snapshot : Snapshot}
  {mounted : Store} {t : World.SnapshotTree} {files rootFiles : List PackageFile}
  (hload : Store.loadSnapshot mountTime snapshot = .ok mounted) (hstable : mounted.Stable)
  (hread : readSnapshot localeLe mountTime snapshot = .ok t)
include hload hstable hread

theorem exportedFile_eq_some_iff_mounted {k : Text} {record : FileRecord} :
    (createWasiWorkspaceMount (some t) files rootFiles).exportedFile k = some record ↔
      ∃ stored, mounted.files.get k = some stored ∧
        record = ⟨stored.content, some k, some stored.mtimeMs, false⟩ := by
  rw [exportedFile_mounted, World.SnapshotTree.get_fileMap_of_stable hload hstable hread,
    Option.map_eq_some_iff]
  simp only [eq_comm]

theorem workspaceDirs_eq_mounted (k : Text) :
    (createWasiWorkspaceMount (some t) files rootFiles).workspaceDirs.has k =
      mounted.directories.has k := by
  have hdirectories := (World.SnapshotTree.entries_of_stable hload hstable hread).1 k
  rw [Bool.eq_iff_iff, workspaceDirs_mounted, hdirectories, or_iff_right_iff_imp]
  rintro rfl
  exact (Store.valid_loadSnapshot hload).root

/-- What a mounted workspace exports, the store accepts. -/
theorem spelled_treelike_mounted :
    (createWasiWorkspaceMount (some t) files rootFiles).Spelled ∧
      (createWasiWorkspaceMount (some t) files rootFiles).Treelike := by
  have hvalid := Store.valid_loadSnapshot hload
  have hfile : ∀ k record, (createWasiWorkspaceMount (some t) files rootFiles).exportedFile k =
      some record → mounted.files.has k = true ∧ record.mtimeMs.getD 0 < 2 ^ 53 := by
    intro k record hk
    obtain ⟨stored, hstored, rfl⟩ :=
      (exportedFile_eq_some_iff_mounted hload hstable hread).1 hk
    exact ⟨has_of_get hstored, Store.mtimeMs_lt_of_loadSnapshot hload hstored⟩
  refine ⟨⟨fun k hk => ?_, fun k record hk => ?_⟩, ⟨fun k record hk => ⟨?_, ?_⟩,
    fun k record hk => .inr ?_, fun k hk => .inr ?_⟩⟩
  · rw [workspaceDirs_eq_mounted hload hstable hread] at hk
    exact hstable k (.inr hk)
  · exact ⟨hstable k (.inl (hfile k record hk).1), (hfile k record hk).2⟩
  · rintro rfl
    -- the root is a directory
    have hno := hvalid.disjoint [] (hfile [] record hk).1
    rw [hvalid.root] at hno
    cases hno
  · rw [workspaceDirs_eq_mounted hload hstable hread]
    exact hvalid.disjoint k (hfile k record hk).1
  · rw [workspaceDirs_eq_mounted hload hstable hread]
    exact hvalid.fileParent k (hfile k record hk).1
  · rw [workspaceDirs_eq_mounted hload hstable hread] at hk ⊢
    exact hvalid.directoryParent k hk

/-- The store that has loaded the export of a workspace that is still the mounted one holds what
was mounted, with the timestamps of its directories at 0. -/
theorem exists_loadSnapshot_export {host : Host}
    (hsame : (createWasiWorkspaceMount (some t) files rootFiles).SameWorkspace host) (now : ℕ) :
    ∃ store, Store.loadSnapshot now (host.exportWasiWorkspaceSnapshot localeLe) = .ok store ∧
      mounted.withoutTimes.Same store := by
  have hvalid := Store.valid_loadSnapshot hload
  obtain ⟨hspelled, htree⟩ :
      (createWasiWorkspaceMount (some t) files rootFiles).Spelled ∧
        (createWasiWorkspaceMount (some t) files rootFiles).Treelike :=
    spelled_treelike_mounted hload hstable hread
  have hnamed := hsame.named (named_mounted t files rootFiles)
  obtain ⟨store, hstore⟩ :
      ∃ store, Store.loadSnapshot now (host.exportWasiWorkspaceSnapshot localeLe) = .ok store :=
    (Host.loadSnapshot_export_iff hnamed (hsame.spelled hspelled) now).2 (hsame.treelike htree)
  have hstored := Host.storedIn_of_loadSnapshot hnamed (hsame.spelled hspelled) hstore
  refine ⟨store, hstore, fun k => ?_, fun k => ?_⟩
  · rw [Store.withoutTimes, get_mapVals]
    have hdir := hsame.dirs k
    rw [workspaceDirs_eq_mounted hload hstable hread] at hdir
    cases hk : mounted.directories.get k with
    | some record =>
      rw [has_of_get hk] at hdir
      rw [hstored.directories k hdir, Option.map_some, hvalid.directoryPath k record hk]
    | none =>
      refine (has_eq_false_iff _ _).1 (Bool.eq_false_iff.2 fun hhas => ?_)
      have hnone : mounted.directories.has k = false := (has_eq_false_iff _ _).2 hk
      rcases (hstored.directory_iff k).1 hhas with rfl | hin
      · rw [hvalid.root] at hnone
        cases hnone
      · rw [hdir, hnone] at hin
        cases hin
  · rw [hstored.files k, hsame.exportedFile, exportedFile_mounted,
      World.SnapshotTree.get_fileMap_of_stable hload hstable hread, Option.map_map]
    change _ = mounted.files.get k
    cases hk : mounted.files.get k with
    | none => rfl
    | some record =>
      have hpath := hvalid.filePath k record hk
      rw [Option.map_some, Function.comp_apply, ← hpath]
      rfl

end

/-! ### Runs -/

namespace Session

/-- The workspace is writable, and what the mark rests on holds. -/
structure Ready (s : Session) : Prop where
  writable : s.system.world.writable = true
  apart : s.system.Apart
  writesOutside : s.system.WritesOutside

variable {s : Session} {localeLe : Text → Text → Bool} {now : ℕ}
    {files rootFiles : List PackageFile} {events : List SessionEvent}

theorem Ready.step (h : s.Ready) (e : SessionEvent) : (s.step e).Ready := by
  cases e with
  | guest e =>
    exact ⟨(System.marks_step h.writable h.apart h.writesOutside e).writable.trans h.writable,
      System.apart_step h.apart e, System.writesOutside_step h.writesOutside h.apart e⟩
  | host => exact ⟨h.writable, h.apart, h.writesOutside⟩

theorem ready_mount {store : Store} {workspaceSnapshot : Option Snapshot} {cwd : Option Text}
    {stdin : Bytes} {start : Session}
    (h : mount localeLe now store workspaceSnapshot files rootFiles cwd stdin = .ok start) :
    start.Ready := by
  obtain ⟨t, -, heq⟩ := Except.bind_eq_ok_iff.1 h
  obtain rfl := Except.ok.inj heq
  refine ⟨rfl, System.apart_of_reach .start, fun r hr fd file k hfile => ?_⟩
  obtain rfl := List.mem_singleton.1 hr
  cases hfile

/-- The workspace of a run that changes nothing is still the one that was mounted. -/
theorem sameWorkspace_of_unchanged (h : Along step Unchanged s events) :
    s.system.host.SameWorkspace (runAll step s events).system.host := by
  induction events generalizing s with
  | nil => exact .refl _
  | cons e events ih =>
    obtain ⟨hfirst, hrest⟩ := h
    have hone : s.system.host.SameWorkspace (s.step e).system.host := by
      cases e with
      | guest => exact hfirst
      | host => exact .refl _
    exact hone.trans (ih hrest)

/-- A workspace that is not dirty at the end has not been changed on the way. -/
theorem unchanged_of_clean (hs : s.Ready)
    (h : (runAll step s events).system.host.workspace.dirty = false) :
    Along step Unchanged s events ∧ s.system.host.workspace.dirty = false := by
  induction events generalizing s with
  | nil => exact ⟨trivial, h⟩
  | cons e events ih =>
    obtain ⟨hrest, hclean⟩ := ih (hs.step e) h
    cases e with
    | host => exact ⟨⟨trivial, hrest⟩, hclean⟩
    | guest e =>
      have hmarks := System.marks_step hs.writable hs.apart hs.writesOutside e
      refine ⟨⟨hmarks.same hclean, hrest⟩, ?_⟩
      by_contra hdirty
      rw [show (s.step (.guest e)).system.host.workspace.dirty = true from
        hmarks.dirty (Bool.not_eq_false _ ▸ hdirty)] at hclean
      cases hclean

section

variable {localeLe : Text → Text → Bool} {now : ℕ} {s : Session}
  (hwritable : s.system.world.writable = true)
include hwritable

theorem afterRun_result : s.afterRun localeLe now .result =
    if s.system.host.workspace.dirty then
      (s.store.importSnapshot now (s.system.host.exportWasiWorkspaceSnapshot localeLe)).1
    else s.store := by
  have hwritable' : ¬s.system.host.workspace.writable = false := by
    rw [Bool.not_eq_false]
    exact hwritable
  rw [afterRun, workspaceResult, if_neg hwritable']
  dsimp only
  split <;> rfl

theorem afterWorkerRun_result : s.afterWorkerRun localeLe now .result =
    (s.store.importSnapshot now (s.system.host.exportWasiWorkspaceSnapshot localeLe)).1 := by
  have hwritable' : ¬s.system.host.workspace.writable = false := by
    rw [Bool.not_eq_false]
    exact hwritable
  rw [afterWorkerRun, workspaceResult, if_neg hwritable']
  rfl

/-- The paths differ only where the workspace is not dirty. -/
theorem afterRun_of_dirty (hdirty : s.system.host.workspace.dirty = true) :
    s.afterRun localeLe now .result = s.afterWorkerRun localeLe now .result := by
  rw [afterRun_result hwritable, afterWorkerRun_result hwritable, if_pos hdirty]

end

/-- Writing the mounted workspace back changes nothing exactly when the store holds it. -/
theorem same_afterWorkerRun_iff {mountTime : ℕ} {snapshot : Snapshot} {t : World.SnapshotTree}
    (hread : readSnapshot localeLe mountTime snapshot = .ok t)
    (hsame : (createWasiWorkspaceMount (some t) files rootFiles).SameWorkspace s.system.host)
    (hwritable : s.system.world.writable = true) :
    s.store.Same (s.afterWorkerRun localeLe now .result) ↔
      s.HoldsMounted localeLe now mountTime snapshot := by
  obtain ⟨mounted, hload, -⟩ := readSnapshot_eq_ok_iff.1 hread
  rw [afterWorkerRun_result hwritable, Store.importSnapshot]
  constructor
  · intro h mounted' hload'
    obtain rfl := Except.ok.inj (hload.symm.trans hload')
    refine ⟨fun hstable => ?_, fun _ store hstore => ?_⟩
    · obtain ⟨store, hstore, hmounted⟩ := exists_loadSnapshot_export hload hstable hread hsame now
      rw [hstore] at h
      exact hmounted.trans h.symm
    · rw [hstore] at h
      exact h.symm
  · intro h
    obtain ⟨hstable, hunstable⟩ := h mounted hload
    by_cases hnames : mounted.Stable
    · obtain ⟨store, hstore, hmounted⟩ := exists_loadSnapshot_export hload hnames hread hsame now
      rw [hstore]
      exact (hstable hnames).symm.trans hmounted
    · cases hstore :
        Store.loadSnapshot now (s.system.host.exportWasiWorkspaceSnapshot localeLe) with
      | ok store => exact (hunstable hnames store hstore).symm
      | error => exact .refl _

/-- A run on an empty store. -/
def emptyStart : Session :=
  ⟨Store.empty 0, System.boot (some ⟨[[]], []⟩) [] [] none []⟩

theorem mount_emptyStore :
    mount (fun _ _ => true) 0 (Store.empty 0) (some System.emptySnapshot) [] [] none [] =
      .ok emptyStart := by
  rw [mount, mountedSnapshot, Option.getD_some, System.readSnapshot_emptySnapshot]
  rfl

/-- The guest makes a directory, and then the host writes a file. -/
def bothWrite : List SessionEvent :=
  [.guest (.call (.pathCreateDirectory 3 "d".toList)),
    .host ⟨0, .writeFile "/workspace/a".toList []⟩]

/-- The host writes a file while the guest does nothing. -/
def hostWrites : List SessionEvent := [.host ⟨0, .writeFile "/workspace/a".toList []⟩]

end Session

end WasmHost

import WasmHost.Wasi.WorkspaceExport

/-!
# The dirty mark

A writable workspace is marked dirty by whatever changes it, each operation on its own. The mark is
never taken back, and as long as it is not set the workspace record holds what it held at the start:
the same directories, and under the same keys the same files.

* `World.Touches`: an effect that leaves the entries alone and gives some files other content.
* `World.call_touches`: a call is such an effect, or one follows an edit of the workspace.
* `World.Marks`: an effect that sets the mark if it changes the workspace.
* `System.marks_step`: every event of a run is one.
-/

namespace WasmHost

/-- The workspace records hold the same directories and files. -/
structure Host.SameWorkspace (host host' : Host) : Prop where
  files : ∀ k, host'.workspaceFile k = host.workspaceFile k
  dirs : ∀ k, host'.workspaceDirs.has k = host.workspaceDirs.has k

theorem Host.SameWorkspace.refl (host : Host) : host.SameWorkspace host :=
  ⟨fun _ => rfl, fun _ => rfl⟩

theorem Host.SameWorkspace.trans {host host' host'' : Host} (h : host.SameWorkspace host')
    (h' : host'.SameWorkspace host'') : host.SameWorkspace host'' :=
  ⟨fun k => (h'.files k).trans (h.files k), fun k => (h'.dirs k).trans (h.dirs k)⟩

namespace World

/-- An effect on a writable workspace that keeps the mark, and sets it if it changes anything. -/
structure Marks (w w' : World) : Prop where
  writable : w'.writable = w.writable
  dirty : w.host.workspace.dirty = true → w'.host.workspace.dirty = true
  same : w'.host.workspace.dirty = false → w.host.SameWorkspace w'.host

theorem Marks.refl (w : World) : Marks w w := ⟨rfl, id, fun _ => .refl _⟩

variable {w w' : World}

theorem Marks.trans {w'' : World} (h : Marks w w') (h' : Marks w' w'') : Marks w w'' := by
  refine ⟨h'.writable.trans h.writable, fun hd => h'.dirty (h.dirty hd), fun hclean => ?_⟩
  have hclean' : w'.host.workspace.dirty = false := by
    by_contra hdirty
    rw [h'.dirty (by simpa using hdirty)] at hclean
    cases hclean
  exact (h.same hclean').trans (h'.same hclean)

/-- An effect that sets the mark may change everything else. -/
theorem marks_of_dirty (hwritable : w'.writable = w.writable)
    (hdirty : w'.host.workspace.dirty = true) : Marks w w' := by
  refine ⟨hwritable, fun _ => hdirty, fun hclean => ?_⟩
  rw [hdirty] at hclean
  cases hclean

theorem dirty_markWorkspaceDirty (h : w.writable = true) :
    w.markWorkspaceDirty.host.workspace.dirty = true := by
  simp [markWorkspaceDirty, h]

end World

/-- The file has got other content: it is the guest's own now, under the same name. -/
structure FileRecord.Written (r r' : FileRecord) : Prop where
  path : r'.path = r.path
  mtimeMs : r'.mtimeMs = r.mtimeMs
  fallback : r'.fallback = false

theorem FileRecord.Written.trans {r r' r'' : FileRecord} (h : r.Written r') (h' : r'.Written r'') :
    r.Written r'' :=
  ⟨h'.path.trans h.path, h'.mtimeMs.trans h.mtimeMs, h'.fallback⟩

namespace World

/-- The entries of the workspace stay; a file with other content is marked. -/
structure Touches (w w' : World) : Prop where
  fileMaps : w'.host.fileMaps = w.host.fileMaps
  dirSets : w'.host.dirSets = w.host.dirSets
  files : w'.host.workspace.files = w.host.workspace.files
  dirs : w'.host.workspace.dirs = w.host.workspace.dirs
  writable : w'.writable = w.writable
  dirty : w.host.workspace.dirty = true → w'.host.workspace.dirty = true
  objects : ∀ r, w.host.InWorkspace r → w'.host.records.get r = w.host.records.get r ∨
    (w.host.records.get r).Written (w'.host.records.get r) ∧ w'.host.workspace.dirty = true

/-- The descriptors that write to an object of the workspace say so. -/
def WritesOutside (w : World) : Prop :=
  ∀ fd file r, w.openFile fd = some file → file.record? = some r → file.writable = true →
    file.mount ≠ some .workspace → ¬w.host.InWorkspace r

variable {w w' : World} {r : ℕ}

/-- Effects that spare the maps and the objects. -/
theorem touches_of_eq (hfileMaps : w'.host.fileMaps = w.host.fileMaps)
    (hdirSets : w'.host.dirSets = w.host.dirSets)
    (hworkspace : w'.host.workspace = w.host.workspace)
    (hrecords : ∀ r, w.host.InWorkspace r → w'.host.records.get r = w.host.records.get r) :
    Touches w w' := by
  refine ⟨hfileMaps, hdirSets, ?_, ?_, ?_, fun hd => ?_, fun r hr => .inl (hrecords r hr)⟩
  · rw [hworkspace]
  · rw [hworkspace]
  · rw [writable, writable, hworkspace]
  · rwa [hworkspace]

theorem Touches.refl (w : World) : Touches w w := touches_of_eq rfl rfl rfl fun _ _ => rfl

theorem Touches.inWorkspace (h : Touches w w') : w'.host.InWorkspace r ↔ w.host.InWorkspace r := by
  rw [Host.InWorkspace, Host.InWorkspace, h.fileMaps]

theorem Touches.trans {w'' : World} (h : Touches w w') (h' : Touches w' w'') : Touches w w'' := by
  refine ⟨h'.fileMaps.trans h.fileMaps, h'.dirSets.trans h.dirSets, h'.files.trans h.files,
    h'.dirs.trans h.dirs, h'.writable.trans h.writable, fun hd => h'.dirty (h.dirty hd),
    fun r hr => ?_⟩
  rcases h.objects r hr with hsame | ⟨hwritten, hdirty⟩
  · rw [← hsame]
    exact h'.objects r (h.inWorkspace.2 hr)
  · rcases h'.objects r (h.inWorkspace.2 hr) with hsame | ⟨hwritten', hdirty'⟩
    · rw [hsame]
      exact .inr ⟨hwritten, h'.dirty hdirty⟩
    · exact .inr ⟨hwritten.trans hwritten', hdirty'⟩

/-- A file without the mark holds what it held. -/
theorem Touches.marks (h : Touches w w') : Marks w w' := by
  refine ⟨h.writable, h.dirty, fun hclean => ⟨fun k => ?_, fun k => ?_⟩⟩
  · rw [Host.workspaceFile, Host.workspaceFile, Host.workspaceFiles, Host.workspaceFiles,
      h.fileMaps, h.files]
    refine Option.map_congr fun r hr => ?_
    rcases h.objects r ⟨_, k, hr⟩ with hsame | ⟨-, hdirty⟩
    · exact hsame
    · rw [hdirty] at hclean
      cases hclean
  · rw [Host.workspaceDirs, Host.workspaceDirs, h.dirSets, h.dirs]

/-! ### Plain effects -/

section

variable {w : World}

variable {record : ℕ}

/-- The objects of `/tmp` are not those of the workspace. -/
theorem not_inWorkspace_of_get (hapart : w.Apart) {key : Text}
    (hget : w.runtime.scratch.files.get key = some record) : ¬w.host.InWorkspace record :=
  fun hr => (hapart.workspace record hr).2 ⟨key, hget⟩

/-- An object outside the workspace may change. -/
theorem touches_modifyRecord (f : FileRecord → FileRecord) (h : ¬w.host.InWorkspace record) :
    Touches w (w.modifyRecord record f) := by
  refine touches_of_eq rfl rfl rfl fun r hr => Heap.get_modify_ne _ _ ?_
  rintro rfl
  exact h hr

/-- One of the workspace is the guest's own afterwards. -/
theorem touches_written (hwritable : w.writable = true) (f : FileRecord → FileRecord)
    (hf : ∀ r : FileRecord, r.Written (f r)) :
    Touches w (w.modifyRecord record f).markWorkspaceDirty := by
  have hrecords : (w.modifyRecord record f).markWorkspaceDirty.host.records =
      w.host.records.modify record f := rfl
  have hdirty : (w.modifyRecord record f).markWorkspaceDirty.host.workspace.dirty = true :=
    dirty_markWorkspaceDirty hwritable
  refine ⟨rfl, rfl, rfl, rfl, rfl, fun _ => hdirty, fun r _ => ?_⟩
  rw [hrecords, Heap.get_modify]
  split
  next heq =>
    rw [heq]
    exact .inr ⟨hf _, hdirty⟩
  · exact .inl rfl

theorem Plain.touches (h : Plain w w') (hwritable : w.writable = true) (hapart : w.Apart)
    (hout : w.WritesOutside) : Touches w w' := by
  cases h with
  | quiet hq =>
    exact ⟨hq.fileMaps, hq.dirSets, hq.workspaceFiles, hq.workspaceDirs, hq.writable, hq.dirty,
      fun r _ => .inl (by rw [hq.records])⟩
  | @content fd file record bytes hfile hrecord hwrites hmount =>
    exact touches_modifyRecord _ (hout fd file record hfile hrecord hwrites hmount)
  | adopt => exact touches_written hwritable _ fun r => ⟨rfl, rfl, rfl⟩
  | @truncate mount key record hget =>
    cases mount with
    | workspace => exact touches_written hwritable _ fun r => ⟨rfl, rfl, rfl⟩
    | scratch => exact touches_modifyRecord _ (not_inWorkspace_of_get hapart hget)
  | moved =>
    unfold moveDescriptor closeReplaced
    split <;> exact touches_of_eq rfl rfl rfl fun _ _ => rfl
  | duplicated | preopened =>
    unfold placeDuplicate closeReplaced
    split <;> exact touches_of_eq rfl rfl rfl fun _ _ => rfl
  | _ => exact touches_of_eq rfl rfl rfl fun _ _ => rfl

end

/-! ### Descriptors that write elsewhere -/

theorem WritesOutside.of_origin (hw : w.WritesOutside) (hapart : w.Apart) {file : OpenFile}
    (h : w.Origin file) (hr : file.record? = some r) (hwrites : file.writable = true)
    (hmount : file.mount ≠ some .workspace) : ¬w.host.InWorkspace r := by
  cases h with
  | @old fd file₀ _ hfile hbare =>
    refine hw fd file₀ r hfile (OpenFile.record?_eq_of_bare hbare ▸ hr)
      (OpenFile.writable_eq_of_bare hbare ▸ hwrites) ?_
    rwa [← OpenFile.mount_eq_of_bare hbare]
  | opened hopens hoffset =>
    cases hopens with
    | directory => cases hr
    | @mounted mount path record offset rights fdflags hpath hget =>
      obtain rfl : record = r := Option.some.inj hr
      cases mount with
      | workspace => exact absurd rfl hmount
      | scratch => exact not_inWorkspace_of_get hapart hget
    | packageRoot | readOnly => cases hwrites
  | preopened => cases hr
  | stream hrecord hdirectory hmount =>
    rw [hrecord] at hr
    cases hr

/-- A runtime that does nothing writes outside while the shared objects grow. -/
theorem WritesOutside.of_grows (hw : w.WritesOutside) (hapart : w.Apart) (h : Grows w w')
    (hopen : w'.runtime.openFiles = w.runtime.openFiles) : w'.WritesOutside := by
  intro fd file r hfile hr hwrites hmount hin
  rw [openFile, hopen] at hfile
  rcases h.workspace r hin with hold | ⟨hge, -⟩
  · exact hw fd file r hfile hr hwrites hmount hold
  · exact absurd (hapart.openFile fd file r hfile hr).1 (Nat.not_lt.2 hge)

theorem Plain.writesOutside (h : Plain w w') (hw : w.WritesOutside) (hapart : w.Apart) :
    w'.WritesOutside := by
  intro fd file r hfile hr hwrites hmount hin
  rw [Host.InWorkspace, h.keepsObjects.fileMaps] at hin
  exact hw.of_origin hapart (h.origin hfile) hr hwrites hmount hin

theorem Plains.writesOutside (h : Plains w w') (hw : w.WritesOutside) (hapart : w.Apart) :
    w'.WritesOutside := by
  induction h with
  | refl => exact hw
  | tail hsteps hstep ih => exact hstep.writesOutside ih (Plains.apart hsteps hapart)

theorem writesOutside_perform (hw : w.WritesOutside) (hapart : w.Apart) {c : Call}
    {mount : VirtualMount} {e : Mount.Edit ℕ} (h : w.Edits c mount e) :
    (w.perform mount e).WritesOutside := by
  intro fd file r hfile hr hwrites hmount hin
  rw [openFile, openFiles_perform, OrdMap.get_mapVals] at hfile
  obtain ⟨old, hold, rfl⟩ := Option.map_eq_some_iff.1 hfile
  rw [record?_follow] at hr
  rw [mount_follow] at hmount
  rw [OpenFile.writable, kind_follow] at hwrites
  rcases inWorkspace_perform h hin with hin | ⟨-, rfl, -⟩
  · exact hw fd old r hold hr hwrites hmount hin
  · exact lt_irrefl _ (hapart.openFile fd old _ hold hr).1

theorem writesOutside_call (hw : w.WritesOutside) (hapart : w.Apart) (c : Call) :
    (w.call c).WritesOutside := by
  rcases w.call_effects c with h | ⟨mount, e, he, h⟩
  · exact h.writesOutside hw hapart
  · exact h.writesOutside (writesOutside_perform hw hapart he) (apart_perform hapart he)

theorem writesOutside_rebindOpenFile (hw : w.WritesOutside) (hapart : w.Apart) (fd : Int)
    (file : OpenFile) : (w.rebindOpenFile fd file).WritesOutside := by
  have hgrows := w.grows_rebindOpenFile fd file
  -- only a descriptor of the workspace gets another object
  have hset : ∀ (w' : World) (new : OpenFile),
      w'.runtime.openFiles = w.runtime.openFiles.set fd new → new.mount = some .workspace →
      Grows w w' → w'.WritesOutside := by
    intro w' new htable hnew hgrows fd' file' r hfile hr hwrites hmount hin
    rw [openFile, htable, OrdMap.get_set] at hfile
    split at hfile
    · exact hmount (Option.some.inj hfile ▸ hnew)
    rcases hgrows.workspace r hin with hold | ⟨hge, -⟩
    · exact hw fd' file' r hfile hr hwrites hmount hold
    · exact absurd (hapart.openFile fd' file' r hfile hr).1 (Nat.not_lt.2 hge)
  rcases w.rebindOpenFile_cases fd file with
    h | ⟨_, _, _, path, _, _, _, hmount, _, ⟨_, h⟩ | ⟨_, _, _, h⟩⟩
  · rwa [h]
  · rw [h] at hgrows ⊢
    exact hset _ _ rfl hmount hgrows
  · rw [h] at hgrows ⊢
    exact hset _ _ rfl hmount hgrows

theorem writesOutside_childSnapshot (hw : w.WritesOutside) (hapart : w.Apart)
    (snapshot : SnapshotTree) :
    (w.importWasiWorkspaceSnapshot snapshot).rebindOpenWorkspaceFiles.WritesOutside := by
  refine (rebind_induction (P := fun w' => w'.Apart ∧ w'.WritesOutside) _
    (fun w' fd file _ hw' => ⟨apart_rebindOpenFile hw'.1 fd file,
      writesOutside_rebindOpenFile hw'.2 hw'.1 fd file⟩) ⟨?_, ?_⟩).2
  · exact apart_importWasiWorkspaceSnapshot hapart snapshot
  · exact hw.of_grows hapart (w.grows_importWasiWorkspaceSnapshot snapshot)
      (congrArg Runtime.openFiles (w.imported_importWasiWorkspaceSnapshot snapshot).runtime)

/-! ### Calls -/

/-- What the mark rests on. -/
structure Guarded (w : World) : Prop where
  writable : w.writable = true
  apart : w.Apart
  writesOutside : w.WritesOutside

theorem Plains.touches (h : Plains w w') (hw : w.Guarded) : Touches w w' ∧ w'.Guarded := by
  induction h with
  | refl => exact ⟨.refl w, hw⟩
  | tail _ hstep ih =>
    obtain ⟨htouches, hguarded⟩ := ih
    have hone := hstep.touches hguarded.writable hguarded.apart hguarded.writesOutside
    exact ⟨htouches.trans hone, hone.writable.trans hguarded.writable,
      hstep.apart hguarded.apart, hstep.writesOutside hguarded.writesOutside hguarded.apart⟩

section

variable {w : World} (hw : w.Guarded)
include hw

variable {c : Call} {e : Mount.Edit ℕ}

theorem guarded_perform {mount : VirtualMount} (h : w.Edits c mount e) :
    (w.perform mount e).Guarded :=
  ⟨(framed_perform w mount e).writable.trans hw.writable, apart_perform hw.apart h,
    writesOutside_perform hw.writesOutside hw.apart h⟩

theorem touches_dropReplacedPath (record : ℕ) (target : Text) :
    Touches w (w.dropReplacedPath record (w.runtime.scratch.files.get target)) := by
  cases htarget : w.runtime.scratch.files.get target with
  | none => exact touches_of_eq rfl rfl rfl fun _ _ => rfl
  | some old =>
    have hrecords : (w.dropReplacedPath record (some old)).host.records =
        if old = record then w.host.records
        else w.host.records.modify old fun r => { r with path := none } := rfl
    refine touches_of_eq rfl rfl rfl fun r hr => ?_
    rw [hrecords]
    split
    · rfl
    refine Heap.get_modify_ne _ _ ?_
    rintro rfl
    exact not_inWorkspace_of_get hw.apart htarget hr

theorem touches_repathRecords (source target : Text) :
    Touches w (w.repathRecords source target w.runtime.scratch.files) := by
  refine touches_of_eq rfl rfl rfl fun r hr => ?_
  -- the entries are objects of `/tmp`, and each is changed on its own
  refine List.foldlRecOn (motive := fun records : Heap FileRecord =>
    records.get r = w.host.records.get r) w.runtime.scratch.files.entries _ rfl
    fun records hsame e he => ?_
  have hne : r ≠ e.2 := by
    rintro rfl
    exact not_inWorkspace_of_get hw.apart ((w.runtime.scratch.files.mem_entries e.1 e.2).1 he) hr
  split
  · exact (Heap.get_modify_ne _ _ hne).trans hsame
  · exact hsame

/-- Edits of `/tmp` leave the workspace alone. -/
theorem touches_perform_scratch (h : w.Edits c .scratch e) : Touches w (w.perform .scratch e) := by
  have hcreate : ∀ path, Touches w (w.createFile .scratch path) := fun path =>
    touches_of_eq rfl rfl rfl fun r hr => Heap.get_alloc_of_lt _ _ (hw.apart.workspace r hr).1
  cases h with
  | createFile | createFile2 => exact hcreate _
  | createDir | removeFile | removeDir => exact touches_of_eq rfl rfl rfl fun _ _ => rfl
  | @renameFile _ _ _ _ _ source target record hkeys hget hallow =>
    have hmoved : ¬(w.dropReplacedPath record
        (w.runtime.scratch.files.get target)).host.InWorkspace record :=
      fun hr => not_inWorkspace_of_get hw.apart hget hr
    have hmove := touches_modifyRecord (fun r => { r with path := some target }) hmoved
    exact ((touches_dropReplacedPath hw record target).trans hmove).trans
      (touches_of_eq rfl rfl rfl fun _ _ => rfl)
  | renameDir =>
    exact (touches_repathRecords hw _ _).trans (touches_of_eq rfl rfl rfl fun _ _ => rfl)

/-- A call gives some files other content, perhaps after one edit of the workspace. -/
theorem call_touches (c : Call) :
    Touches w (w.call c) ∨ ∃ e, w.Edits c .workspace e ∧
      Touches (w.perform .workspace e) (w.call c) := by
  rcases w.call_effects c with h | ⟨mount, e, he, h⟩
  · exact .inl (h.touches hw).1
  · have hrest := (h.touches (guarded_perform hw he)).1
    cases mount with
    | workspace => exact .inr ⟨e, he, hrest⟩
    | scratch => exact .inl ((touches_perform_scratch hw he).trans hrest)

theorem guarded_call (c : Call) : (w.call c).Guarded := by
  rcases w.call_effects c with h | ⟨mount, e, he, h⟩
  · exact (h.touches hw).2
  · exact (h.touches (guarded_perform hw he)).2

/-- Every edit of the workspace ends with the mark. -/
theorem dirty_perform_workspace (h : w.Edits c .workspace e) :
    (w.perform .workspace e).host.workspace.dirty = true := by
  cases h <;> exact dirty_markWorkspaceDirty hw.writable

theorem marks_call (c : Call) : Marks w (w.call c) := by
  rcases call_touches hw c with h | ⟨e, he, h⟩
  · exact h.marks
  · exact (marks_of_dirty (framed_perform w .workspace e).writable
      (dirty_perform_workspace hw he)).trans h.marks

end

theorem marks_childSnapshot (hwritable : w.writable = true) (snapshot : SnapshotTree) :
    Marks w (w.importWasiWorkspaceSnapshot snapshot).rebindOpenWorkspaceFiles := by
  have himported := (w.imported_importWasiWorkspaceSnapshot snapshot).writable
  -- the import sets the mark, and no descriptor that is bound again takes it back
  have hmark : (w.importWasiWorkspaceSnapshot snapshot).host.workspace.dirty = true := by
    rw [importWasiWorkspaceSnapshot, if_neg (by simp [hwritable])]
    refine dirty_markWorkspaceDirty ?_
    have hquiet := himported
    rw [importWasiWorkspaceSnapshot, if_neg (by simp [hwritable])] at hquiet
    exact hquiet.trans hwritable
  have hkept := rebind_induction
    (P := fun w' => w'.writable = true ∧ w'.host.workspace.dirty = true) _
    (fun w' fd file _ hw' => by
      rcases w'.rebindOpenFile_cases fd file with
        h | ⟨_, _, _, path, _, _, _, _, _, ⟨_, h⟩ | ⟨_, _, _, h⟩⟩
      · rw [h]
        exact hw'
      · rw [h]
        exact hw'
      · rw [h]
        exact ⟨hw'.1, dirty_markWorkspaceDirty hw'.1⟩)
    ⟨himported.trans hwritable, hmark⟩
  exact marks_of_dirty (hkept.1.trans hwritable.symm) hkept.2

end World

/-! ### Events -/

namespace System

/-- The descriptors of every live runtime that write to the workspace say so. -/
def WritesOutside (s : System) : Prop := ∀ r ∈ s.runtimes, (World.mk s.host r).WritesOutside

variable {s : System}

theorem writesOutside_step (h : s.WritesOutside) (hapart : s.Apart) (e : Event) :
    (s.step e).WritesOutside := by
  have hworld : s.world.WritesOutside := h s.runtime List.mem_cons_self
  have hrunning : s.world.Apart := hapart s.runtime List.mem_cons_self
  refine forall_runtimes_step (P := World.WritesOutside)
    (G := fun host => World.Grows s.world ⟨host, s.runtime⟩) h e (fun host hgrows r hr => ?_) ?_
    (fun w hplains _ => ⟨hplains.writesOutside hworld hrunning, hplains.grows.congr _ _⟩)
    (fun snapshot => ⟨World.writesOutside_childSnapshot hworld hrunning snapshot,
      (s.world.grows_childSnapshot snapshot).congr _ _⟩)
    (fun host hhost => grows_of_sameButPipes hhost) ?_
  · exact World.WritesOutside.of_grows (w := ⟨s.host, r⟩) (h r hr) (hapart r hr)
      (hgrows.congr r r) rfl
  · rintro c rfl
    exact ⟨World.writesOutside_call hworld hrunning c, (s.world.grows_call c).congr _ _⟩
  · exact hworld.of_grows hrunning (grows_of_sameButPipes s.world.sameButPipes_forkChild)
      s.world.openFiles_forkChild

/-- Every event keeps the mark, and sets it if it changes the workspace. -/
theorem marks_step (hwritable : s.world.writable = true) (hapart : s.Apart) (hout : s.WritesOutside)
    (e : Event) : World.Marks s.world (s.step e).world := by
  have hworld : s.world.Guarded :=
    ⟨hwritable, hapart s.runtime List.mem_cons_self, hout s.runtime List.mem_cons_self⟩
  cases e with
  | call c => exact World.marks_call hworld c
  | childInput fd => exact ((s.world.plains_processExecInputBytes fd).touches hworld).1.marks
  | childOutput fd bytes => exact ((s.world.plains_writeBytesToFd fd bytes).touches hworld).1.marks
  | childSnapshot snapshot => exact World.marks_childSnapshot hwritable snapshot
  | fork =>
    simp only [step, fork]
    split
    · have hhost := s.world.sameButPipes_forkChild
      exact (World.touches_of_eq hhost.fileMaps hhost.dirSets hhost.workspace
        fun _ _ => congrArg (Heap.get · _) hhost.records).marks
    · exact .refl _
  | exit =>
    simp only [step, exit]
    split
    next parent hparent =>
      have hhost := s.world.sameButPipes_closeAllOpenFiles
      have htouches : World.Touches s.world ⟨s.world.closeAllOpenFiles.host, parent⟩ :=
        World.touches_of_eq hhost.fileMaps hhost.dirSets hhost.workspace
          fun _ _ => congrArg (Heap.get · _) hhost.records
      exact htouches.marks
    · exact .refl _

end System

end WasmHost

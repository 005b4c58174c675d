import WasmHost.Wasi.DirtyMark
import WasmHost.Wasi.MountedWorkspace

/-!
# What a call does to the files of the workspace

The calls of one runtime, file by file: an edit creates, removes or moves file objects, and every
other effect leaves each object as it was or makes it the guest's own with other content.

* `World.Orderly`: what holds along the calls of one runtime on a writable workspace.
* `World.call_workspace`: a call touches files, or creates one, or is exactly one edit.
* `World.fileAt_perform_*`: the file objects after an edit.
* `World.descends_call`: where the object that has a key after a call comes from.
-/

namespace WasmHost

namespace World

/-! ### One runtime on a writable workspace -/

/-- The runtime shares the maps of the workspace record, its objects carry their keys, and the mark
is set by what changes them. -/
structure Orderly (w : World) : Prop extends w.Guarded where
  shares : w.SharesMaps
  named : w.Named

variable {w w' : World}

theorem sharesMaps_call (h : w.SharesMaps) (c : Call) : (w.call c).SharesMaps := by
  rcases w.call_maps c with hkeeps | ⟨mount, e, -, -, hnew⟩
  · exact hkeeps.sharesMaps h
  · exact ⟨hnew.files.trans hnew.workspaceFiles.symm, hnew.dirs.trans hnew.workspaceDirs.symm⟩

theorem Orderly.call (h : w.Orderly) (c : Call) : (w.call c).Orderly :=
  ⟨guarded_call h.toGuarded c, sharesMaps_call h.shares c, named_call h.named h.apart c⟩

theorem orderly_boot (t : SnapshotTree) (files rootFiles : List PackageFile) (cwd : Option Text)
    (stdin : Bytes) : (System.boot (some t) files rootFiles cwd stdin).world.Orderly := by
  have hcoherent := System.coherent_boot (some t) files rootFiles cwd stdin
  refine ⟨⟨rfl, hcoherent.apart _ List.mem_cons_self, fun fd file r hfile => ?_⟩,
    hcoherent.sharesMaps, hcoherent.named⟩
  cases hfile

/-- The workspace record and the runtime name the same objects. -/
theorem workspaceFile_eq_fileAt (h : w.SharesMaps) (k : Text) :
    w.host.workspaceFile k = w.fileAt k := by
  rw [Host.workspaceFile, Host.workspaceFiles, ← h.1]
  rfl

theorem workspaceDirs_eq (h : w.SharesMaps) : w.host.workspaceDirs = w.workspaceMount.dirs := by
  rw [Host.workspaceDirs, ← h.2]
  rfl

/-! ### Calls -/

section

variable {w : World} (hw : w.Guarded)
include hw

/-- The files of the workspace after a call: some of them are touched, perhaps after one was
created, or the call is one edit and nothing else. -/
theorem call_workspace (c : Call) :
    Touches w (w.call c) ∨
      (∃ path, w.Edits c .workspace (.createFile path w.host.records.next) ∧
        Touches (w.createFile .workspace path) (w.call c)) ∨
      ∃ e, EditsEntry c ∧ w.Edits c .workspace e ∧ w.call c = w.perform .workspace e := by
  by_cases hc : EditsEntry c
  · rcases w.call_eq_perform hc with h | ⟨mount, e, he, h⟩
    · rw [h]
      exact .inl (.refl w)
    · cases mount with
      | workspace => exact .inr (.inr ⟨e, hc, he, h⟩)
      | scratch =>
        rw [h]
        exact .inl (touches_perform_scratch hw he)
  · rcases call_touches hw c with h | ⟨e, he, h⟩
    · exact .inl h
    · -- no other call makes an edit than one that opens a file
      refine .inr (.inl ?_)
      cases he with
      | createFile hbase hkey hcreate hallow => exact ⟨_, .createFile hbase hkey hcreate hallow, h⟩
      | createFile2 hbase hkey hcreate hallow =>
        exact ⟨_, .createFile2 hbase hkey hcreate hallow, h⟩
      | _ => exact absurd trivial hc

end

/-- A touched object has the same name and time; its content is another only if it is the guest's
own. -/
structure Kept (record record' : FileRecord) : Prop where
  path : record'.path = record.path
  mtimeMs : record'.mtimeMs = record.mtimeMs
  content : record'.fallback = true → record' = record
  fallback : record.fallback = false → record'.fallback = false

theorem Kept.refl (record : FileRecord) : Kept record record := ⟨rfl, rfl, fun _ => rfl, id⟩

/-- Touching files leaves every key with its object. -/
theorem Touches.fileAt (h : Touches w w') (hshares : w.SharesMaps) (hshares' : w'.SharesMaps)
    (k : Text) :
    (w.fileAt k = none ∧ w'.fileAt k = none) ∨
      ∃ record record', w.fileAt k = some record ∧ w'.fileAt k = some record' ∧
        Kept record record' := by
  rw [← workspaceFile_eq_fileAt hshares, ← workspaceFile_eq_fileAt hshares', Host.workspaceFile,
    Host.workspaceFile, Host.workspaceFiles, Host.workspaceFiles, h.fileMaps, h.files]
  cases hk : (w.host.fileMaps.get w.host.workspace.files).get k with
  | none => exact .inl ⟨rfl, rfl⟩
  | some r =>
    refine .inr ⟨_, _, rfl, rfl, ?_⟩
    rcases h.objects r ⟨_, k, hk⟩ with hsame | ⟨hwritten, -⟩
    · rw [hsame]
      exact .refl _
    · refine ⟨hwritten.path, hwritten.mtimeMs, fun hfallback => ?_, fun _ => hwritten.fallback⟩
      rw [hwritten.fallback] at hfallback
      cases hfallback

theorem Touches.workspaceDirs (h : Touches w w') :
    w'.host.workspaceDirs = w.host.workspaceDirs := by
  rw [Host.workspaceDirs, Host.workspaceDirs, h.dirSets, h.dirs]

/-! ### Edits -/

section

variable {w : World} {c : Call}

variable {path source target : Text}

theorem fileAt_perform_createDir (h : w.Edits c .workspace (.createDir path)) (k : Text) :
    (w.perform .workspace (.createDir path)).fileAt k = w.fileAt k := by
  have hmount : (w.perform .workspace (.createDir path)).workspaceMount =
      w.workspaceMount.apply (.createDir path) := mountOf_perform h
  rw [fileAt, hmount]
  rfl

theorem fileAt_perform_removeDir (h : w.Edits c .workspace (.removeDir path)) (k : Text) :
    (w.perform .workspace (.removeDir path)).fileAt k = w.fileAt k := by
  have hmount : (w.perform .workspace (.removeDir path)).workspaceMount =
      w.workspaceMount.apply (.removeDir path) := mountOf_perform h
  rw [fileAt, hmount]
  rfl

theorem fileAt_perform_removeFile (h : w.Edits c .workspace (.removeFile path)) (k : Text) :
    (w.perform .workspace (.removeFile path)).fileAt k =
      if k = path then none else w.fileAt k := by
  have hmount : (w.perform .workspace (.removeFile path)).workspaceMount =
      w.workspaceMount.apply (.removeFile path) := mountOf_perform h
  have hfiles : (w.workspaceMount.apply (.removeFile path)).files =
      w.workspaceMount.files.delete path := rfl
  rw [fileAt, hmount, hfiles, OrdMap.get_delete]
  split <;> rfl

/-- New paths are all that moving a directory gives to the objects. -/
theorem get_repathRecords (source target : Text) (files : OrdMap Text ℕ) (r : ℕ) :
    ∃ path, (w.repathRecords source target files).host.records.get r =
      { w.host.records.get r with path := path } := by
  refine List.foldlRecOn (motive := fun records : Heap FileRecord =>
    ∃ path, records.get r = { w.host.records.get r with path := path }) files.entries _
    ⟨_, rfl⟩ fun records hsame e _ => ?_
  obtain ⟨path, hpath⟩ := hsame
  split
  · rw [Heap.get_modify]
    split
    next heq => exact ⟨_, by rw [← heq, hpath]⟩
    · exact ⟨path, hpath⟩
  · exact ⟨path, hpath⟩

variable (hw : w.Orderly)
include hw

/-- The object moves to the new key, and takes it from the object that had it. -/
theorem fileAt_perform_renameFile {record : ℕ}
    (h : w.Edits c .workspace (.renameFile source target record)) (k : Text) :
    (w.perform .workspace (.renameFile source target record)).fileAt k =
      if k = target then (w.fileAt source).map fun r =>
        { r with fallback := false, path := some target }
      else if k = source then none else w.fileAt k := by
  obtain ⟨hne, hget⟩ : source ≠ target ∧ w.workspaceMount.files.get source = some record := by
    cases h with
    | renameFile hkeys hget hallow => exact ⟨hallow.1, hget⟩
  have hmount : (w.perform .workspace (.renameFile source target record)).workspaceMount =
      w.workspaceMount.apply (.renameFile source target record) := mountOf_perform h
  have hfiles : (w.workspaceMount.apply (.renameFile source target record)).files =
      (w.workspaceMount.files.delete source).set target record := rfl
  have hrecords : (w.perform .workspace (.renameFile source target record)).host.records =
      (w.dropReplacedPath record (w.workspaceMount.files.get target)).host.records.modify record
        fun r => { r with fallback := false, path := some target } := rfl
  -- other objects than the moved and the replaced one stay as they are
  have hdrop : ∀ r, w.workspaceMount.files.get target ≠ some r ∨ r = record →
      (w.dropReplacedPath record (w.workspaceMount.files.get target)).host.records.get r =
        w.host.records.get r := by
    intro r hr
    cases htarget : w.workspaceMount.files.get target with
    | none => rfl
    | some old =>
      have hold : (w.dropReplacedPath record (some old)).host.records =
          if old = record then w.host.records
          else w.host.records.modify old fun x => { x with path := none } := rfl
      rw [hold]
      split
      · rfl
      next hother =>
        refine Heap.get_modify_ne _ _ ?_
        rintro rfl
        rcases hr with hr | hr
        · exact hr htarget
        · exact hother hr
  rw [fileAt, hmount, hfiles, hrecords, OrdMap.get_set, OrdMap.get_delete]
  split
  · rw [Option.map_some, Heap.get_modify_self, hdrop record (.inr rfl), fileAt, hget]
    rfl
  next hkt =>
    split
    · rfl
    next hks =>
      refine Option.map_congr fun r hr => ?_
      have hmoved : r ≠ record := fun heq => hks (hw.named.inj hr (heq ▸ hget))
      rw [Heap.get_modify_ne _ _ hmoved,
        hdrop r (.inl fun heq => hkt (hw.named.inj hr heq))]

omit hw in
/-- The root of the workspace is not renamed, and nothing is renamed onto it. -/
theorem renameKeys_ne_nil {oldFd newFd : Int} {oldPath newPath : Text}
    (h : w.renameKeys oldFd oldPath newFd newPath = .ok (.workspace, source, target)) :
    source ≠ [] ∧ target ≠ [] := by
  unfold renameKeys at h
  split at h
  next keys hkeys =>
    obtain ⟨-, rfl⟩ := Prod.mk.inj (Except.ok.inj h)
    unfold workspaceRenameKeys at hkeys
    split at hkeys
    · cases hkeys
    split at hkeys
    · cases hkeys
    · cases hkeys
    · cases hkeys
    · split at hkeys
      · cases hkeys
      split at hkeys
      · cases hkeys
      split at hkeys
      · cases hkeys
      next hne =>
        obtain ⟨rfl, rfl⟩ := Prod.mk.inj (Except.ok.inj (Option.some.inj hkeys))
        exact not_or.1 hne
    · cases hkeys
  · cases h
  · split at h
    · cases h
    · cases h

/-- Every object at or below the old place moves to the new one. -/
theorem fileAt_perform_renameDir (h : w.Edits c .workspace (.renameDir source target)) {k : Text}
    {record : FileRecord} :
    (w.perform .workspace (.renameDir source target)).fileAt k = some record ↔
      ∃ j old, w.fileAt j = some old ∧ SepPath.move '/' source target j = k ∧
        record = { old with path := some k } := by
  have hallow : w.workspaceMount.Allows (.renameDir source target) := h.allows
  obtain ⟨-, -, hfree⟩ := (w.workspaceMount.checkRename_eq_ok_iff source target .directory).1
    hallow.2
  have hmount : (w.perform .workspace (.renameDir source target)).workspaceMount =
      w.workspaceMount.apply (.renameDir source target) := mountOf_perform h
  have hfiles : (w.workspaceMount.apply (.renameDir source target)).files =
      w.workspaceMount.files.rekey (SepPath.move '/' source target) fun _ file => file := rfl
  have hrecords : (w.perform .workspace (.renameDir source target)).host.records =
      (w.repathRecords source target w.workspaceMount.files).host.records := rfl
  have hnamed := named_perform hw.named hw.apart h
  have hget : ∀ r, (w.workspaceMount.files.rekey (SepPath.move '/' source target)
      fun _ file => file).get k = some r ↔
        ∃ j, w.workspaceMount.files.get j = some r ∧ SepPath.move '/' source target j = k := by
    intro r
    refine (OrdMap.get_rekey _ _ _ (fun i j hi hj => ?_) k r).trans ?_
    · exact SepPath.move_inj (hfree.not_atOrBelow (.inl hi)) (hfree.not_atOrBelow (.inl hj))
    · constructor
      · rintro ⟨j, r', hj, hmove, rfl⟩
        exact ⟨j, hj, hmove⟩
      · rintro ⟨j, hj, hmove⟩
        exact ⟨j, r, hj, hmove, rfl⟩
  -- the object keeps everything but its path, which is its new key
  have hrecord : ∀ j r, w.workspaceMount.files.get j = some r →
      SepPath.move '/' source target j = k →
      (w.perform .workspace (.renameDir source target)).host.records.get r =
        { w.host.records.get r with path := some k } := by
    intro j r hj hmove
    obtain ⟨path, hpath⟩ := get_repathRecords source target w.workspaceMount.files r
    rw [hrecords, hpath]
    have hkey := hnamed k r (by rw [hmount, hfiles]; exact (hget r).2 ⟨j, hj, hmove⟩)
    rw [hrecords, hpath] at hkey
    rw [show path = some k from hkey]
  rw [fileAt_eq_some_iff, hmount, hfiles]
  constructor
  · rintro ⟨r, hr, rfl⟩
    obtain ⟨j, hj, hmove⟩ := (hget r).1 hr
    exact ⟨j, _, fileAt_eq_some_iff.2 ⟨r, hj, rfl⟩, hmove, hrecord j r hj hmove⟩
  · rintro ⟨j, old, hold, hmove, rfl⟩
    obtain ⟨r, hj, rfl⟩ := fileAt_eq_some_iff.1 hold
    exact ⟨r, (hget r).2 ⟨j, hj, hmove⟩, hrecord j r hj hmove⟩

end

/-! ### Where an object comes from -/

/-- The object that has a key after a call: a new one, the one that had it before, or one that has
come there by a rename. -/
inductive Descends (w : World) (c : Call) (k : Text) (record : FileRecord) : Prop
  | new (hedit : w.Edits c .workspace (.createFile k w.host.records.next))
      (hmtime : record.mtimeMs = none) (hfallback : record.fallback = false)
  | kept (old : FileRecord) (hold : w.fileAt k = some old) (hkept : Kept old record)
  | renamed (source : Text) (file : ℕ) (old : FileRecord)
      (hedit : w.Edits c .workspace (.renameFile source k file)) (hold : w.fileAt source = some old)
      (hrecord : record = { old with fallback := false, path := some k })
  | moved (source target j : Text) (old : FileRecord)
      (hedit : w.Edits c .workspace (.renameDir source target)) (hold : w.fileAt j = some old)
      (hmove : SepPath.move '/' source target j = k)
      (hrecord : record = { old with path := some k })

section

variable {w : World} (hw : w.Orderly) {c : Call}
include hw

variable {k : Text} {record : FileRecord}

theorem descends_touches (h : Touches w w') (hshares : w'.SharesMaps)
    (hk : w'.fileAt k = some record) : w.Descends c k record := by
  rcases h.fileAt hw.shares hshares k with ⟨-, hnone⟩ | ⟨old, new, hold, hnew, hkept⟩
  · rw [hnone] at hk
    cases hk
  · obtain rfl := Option.some.inj (hnew.symm.trans hk)
    exact .kept old hold hkept

theorem descends_perform {e : Mount.Edit ℕ} (h : w.Edits c .workspace e)
    (hcreate : ∀ path record, e ≠ .createFile path record)
    (hk : (w.perform .workspace e).fileAt k = some record) : w.Descends c k record := by
  have hsame : w.fileAt k = some record → w.Descends c k record := fun hold =>
    .kept record hold (.refl record)
  cases e with
  | createFile path file => exact absurd rfl (hcreate path file)
  | createDir =>
    rw [fileAt_perform_createDir h] at hk
    exact hsame hk
  | removeFile =>
    rw [fileAt_perform_removeFile h] at hk
    split at hk
    · cases hk
    · exact hsame hk
  | removeDir =>
    rw [fileAt_perform_removeDir h] at hk
    exact hsame hk
  | renameFile source target file =>
    rw [fileAt_perform_renameFile hw h] at hk
    split at hk
    next heq =>
      subst heq
      obtain ⟨old, hold, rfl⟩ := Option.map_eq_some_iff.1 hk
      exact .renamed source file old h hold rfl
    · split at hk
      · cases hk
      · exact hsame hk
  | renameDir source target =>
    obtain ⟨j, old, hold, hmove, hrecord⟩ := (fileAt_perform_renameDir hw h).1 hk
    exact .moved source target j old h hold hmove hrecord

theorem descends_call (c : Call) (hk : (w.call c).fileAt k = some record) :
    w.Descends c k record := by
  have hshares := sharesMaps_call hw.shares c
  rcases call_workspace hw.toGuarded c with h | ⟨path, hedit, h⟩ | ⟨e, hc, hedit, h⟩
  · exact descends_touches hw h hshares hk
  · -- the files that were there are touched, and so is the new one
    have hcreated : (w.createFile .workspace path).SharesMaps := hw.shares
    rcases h.fileAt hcreated hshares k with ⟨-, hnone⟩ | ⟨old, new, hold, hnew, hkept⟩
    · rw [hnone] at hk
      cases hk
    · obtain rfl := Option.some.inj (hnew.symm.trans hk)
      rw [fileAt_createFile hw.apart] at hold
      split at hold
      next heq =>
        subst heq
        obtain rfl := Option.some.inj hold
        exact .new hedit hkept.mtimeMs (hkept.fallback rfl)
      · exact .kept old hold hkept
  · rw [h] at hk
    refine descends_perform hw hedit ?_ hk
    rintro path file rfl
    cases hedit <;> exact hc

end

end World

end WasmHost

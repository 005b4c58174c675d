import WasmHost.Wasi.SharedWorkspace

/-!
# Who refers to which file object

File objects are shared by mounts and descriptors, and calls change them through either. The mounts
keep apart: `/tmp` of a runtime never holds an object that a map of the workspace or the package
root holds, or that a descriptor opened on one of these has (`World.Apart`). The objects of the
workspace carry the key they are stored under (`World.Named`). Both hold in every run, the second as
long as no waiting parent is left with old maps.

* `World.Plain.origin`: where the descriptors after a plain effect come from.
* `System.apart_of_reach`, `System.coherent_of_run`: the two invariants.
-/

namespace WasmHost

open Heap OrdMap

/-! ### Where descriptors come from -/

namespace OpenFile

/-- A descriptor without its rights: what its number denotes. -/
def bare (file : OpenFile) : OpenFile := { World.withRights file 0 0 with fdflags := 0 }

variable {file file' : OpenFile}

theorem mount_eq_of_bare (h : file'.bare = file.bare) : file'.mount = file.mount := by
  have hmount : file'.bare.mount = file.bare.mount := congrArg OpenFile.mount h
  exact hmount

@[simp]
theorem record?_bare (file : OpenFile) : file.bare.record? = file.record? := by
  obtain ⟨kind, mount, path, rights, fdflags⟩ := file
  cases kind <;> rfl

@[simp]
theorem writable_bare (file : OpenFile) : file.bare.writable = file.writable := by
  obtain ⟨kind, mount, path, rights, fdflags⟩ := file
  cases kind <;> rfl

theorem record?_eq_of_bare (h : file'.bare = file.bare) : file'.record? = file.record? := by
  rw [← record?_bare, h, record?_bare]

theorem writable_eq_of_bare (h : file'.bare = file.bare) : file'.writable = file.writable := by
  rw [← writable_bare, h, writable_bare]

theorem bare_withRights (file : OpenFile) (rights inheriting : Rights) :
    (World.withRights file rights inheriting).bare = file.bare := by
  obtain ⟨kind, mount, path, rights, fdflags⟩ := file
  cases kind <;> rfl

end OpenFile

namespace World

/-- Where a descriptor comes from: it was there before, perhaps at another number or with other
rights, it is new, or it has neither a file nor a directory behind it. -/
inductive Origin (w : World) : OpenFile → Prop
  | old {fd : Int} {file file' : OpenFile} (hfile : w.openFile fd = some file)
      (hbare : file'.bare = file.bare) : Origin w file'
  | opened {file : OpenFile} (hopens : w.Opens file)
      (hoffset : offset? file = some w.host.offsets.next) : Origin w file
  | preopened (stat : FdStat) (preopenPath : Text) (mount : MountName) :
      Origin w (w.preopenDuplicate stat preopenPath mount)
  | stream {file : OpenFile} (hrecord : file.record? = none)
      (hdirectory : file.isOpenDirectory = false) (hmount : file.mount = none) : Origin w file

variable {w w' : World} {fd fd' : Int} {file : OpenFile}

theorem Origin.self (h : w.openFile fd = some file) :
    w.Origin file := .old h rfl

/-- The descriptors of a table with one entry set. -/
theorem openFile_putOpenFile {file' : OpenFile}
    (h : (w.putOpenFile fd' file').openFile fd = some file) :
    file = file' ∨ w.openFile fd = some file := by
  by_cases hfd : fd = fd'
  · subst hfd
    exact .inl ((Option.some.inj ((get_set_self _ _ _).symm.trans h)).symm)
  · exact .inr ((get_set_ne _ _ hfd).symm.trans h)

theorem openFile_of_delete (heq : w'.runtime.openFiles = w.runtime.openFiles.delete fd')
    (h : w'.openFile fd = some file) : w.openFile fd = some file := by
  rw [openFile, heq, get_delete] at h
  split at h
  · cases h
  · exact h

theorem origin_pipeEnd (w : World) (direction : Direction) (pipe : ℕ) :
    w.Origin (pipeEnd direction pipe) := .stream rfl rfl rfl

/-- The descriptors after a plain effect have an origin before it. -/
theorem Plain.origin (h : Plain w w') (hfile : w'.openFile fd = some file) : w.Origin file := by
  cases h with
  | quiet hq =>
    rw [openFile, hq.openFiles] at hfile
    exact .self hfile
  | pipeBytes | content | adopt => exact .self hfile
  | @truncate mount key record hget => cases mount <;> exact .self hfile
  | @opened new offset hopens hoffset =>
    have hput : (w.putOpenFile w.runtime.nextFileFd new).openFile fd = some file := hfile
    rcases openFile_putOpenFile hput with rfl | hold
    · exact .opened hopens hoffset
    · exact .self hold
  | closed => exact .self (openFile_of_delete (w := w) rfl hfile)
  | @moved source target new hopen htarget hne =>
    have hput : ((w.dropOpenFile source).putOpenFile target new).openFile fd = some file := hfile
    rcases openFile_putOpenFile hput with rfl | hold
    · exact .self hopen
    · exact .self (openFile_of_delete (w := w) rfl hold)
  | @duplicated target new hsource htarget =>
    have hput : (w.putOpenFile target new).openFile fd = some file := hfile
    rcases openFile_putOpenFile hput with rfl | hold
    · cases hsource with
      | openFile hopen => exact .self hopen
      | stdio => exact .stream rfl rfl rfl
    · exact .self hold
  | @preopened target stat preopenPath mount htarget =>
    have hput : (w.putOpenFile target (w.preopenDuplicate stat preopenPath mount)).openFile fd =
      some file := hfile
    rcases openFile_putOpenFile hput with rfl | hold
    · exact .preopened stat preopenPath mount
    · exact .self hold
  | piped =>
    rcases openFile_putOpenFile (w := ((w.allocPipe.allocateDynamicFileFd firstFileFd).1.putOpenFile
        (w.allocPipe.allocateDynamicFileFd firstFileFd).2
        (pipeEnd .read w.host.pipes.next))) hfile with rfl | hread
    · exact w.origin_pipeEnd _ _
    · rcases openFile_putOpenFile (w := w) hread with rfl | hold
      · exact w.origin_pipeEnd _ _
      · exact .self hold
  | @rights fd' new rightsBase rightsInheriting hopen =>
    rcases openFile_putOpenFile hfile with rfl | hold
    · exact .old hopen (OpenFile.bare_withRights _ _ _)
    · exact .self hold

/-! ### What edits store -/

end World

namespace Mount

/-- Some file of the mount is the given object. -/
def Stores {β : Type} (m : Mount β) (file : β) : Prop := ∃ k, m.files.get k = some file

/-- An edit stores what the mount stores already, unless it creates a file. -/
theorem stores_apply {β : Type} {m : Mount β} {e : Edit β} {file : β}
    (hrename : ∀ source target moved, e = .renameFile source target moved →
      m.files.get source = some moved)
    (h : (m.apply e).Stores file) : m.Stores file ∨ ∃ path, e = .createFile path file := by
  obtain ⟨k, hk⟩ := h
  cases e with
  | createFile path new =>
    simp only [apply, get_set] at hk
    split at hk
    · exact .inr ⟨path, by rw [Option.some.inj hk]⟩
    · exact .inl ⟨k, hk⟩
  | createDir => exact .inl ⟨k, hk⟩
  | removeFile =>
    simp only [apply, get_delete] at hk
    split at hk
    · cases hk
    · exact .inl ⟨k, hk⟩
  | removeDir => exact .inl ⟨k, hk⟩
  | renameFile source target moved =>
    simp only [apply, get_set] at hk
    split at hk
    · exact .inl ⟨source, (hrename source target moved rfl).trans hk⟩
    rw [get_delete] at hk
    split at hk
    · cases hk
    · exact .inl ⟨k, hk⟩
  | renameDir =>
    obtain ⟨j, a, hj, -, rfl⟩ := exists_of_get_rekey hk
    exact .inl ⟨j, hj⟩

end Mount

namespace World

variable {w : World} {c : Call} {mount : VirtualMount} {e : Mount.Edit ℕ}

/-- What the edit of a call stores is stored already, or is the object that the call allocates. -/
theorem Edits.stores (h : w.Edits c mount e) {record : ℕ}
    (hstores : ((w.mountOf mount).apply e).Stores record) :
    (w.mountOf mount).Stores record ∨ record = w.host.records.next ∧
      (w.perform mount e).host.records.next = w.host.records.next + 1 := by
  have hrename : ∀ source target moved, e = .renameFile source target moved →
      (w.mountOf mount).files.get source = some moved := by
    rintro source target moved rfl
    cases h with
    | renameFile hkeys hget hallow => exact hget
  rcases Mount.stores_apply hrename hstores with hold | ⟨path, rfl⟩
  · exact .inl hold
  · refine .inr ?_
    cases h with
    | createFile | createFile2 => cases mount <;> exact ⟨rfl, rfl⟩

/-- No address of a file object is freed. -/
theorem next_perform (w : World) (mount : VirtualMount) (e : Mount.Edit ℕ) :
    w.host.records.next ≤ (w.perform mount e).host.records.next := by
  have hrepath : ∀ (w' : World) (source target : Text) (files : OrdMap Text ℕ),
      (w'.repathRecords source target files).host.records.next = w'.host.records.next := by
    intro w' source target files
    refine foldl_rel (r := fun a b : Heap FileRecord => b.next = a.next) (fun _ => rfl)
      (fun a b c hab hbc => hbc.trans hab) (fun records entry => ?_) files.entries w'.host.records
    split <;> rfl
  have hdrop : ∀ (w' : World) (record : ℕ) (replaced : Option ℕ),
      (w'.dropReplacedPath record replaced).host.records.next = w'.host.records.next := by
    intro w' record replaced
    unfold dropReplacedPath setHost
    cases replaced with
    | none => rfl
    | some old =>
      change (if old = record then _ else _ : Heap FileRecord).next = _
      split <;> rfl
  cases mount <;> cases e
  all_goals first
    | exact le_refl _
    | exact Nat.le_succ _
    | exact (hrepath _ _ _ _).ge
    | exact (hdrop w _ _).ge

/-- The maps of the workspace after an edit: only the one of the runtime changes, or a new one is
made, and it is the one of the edited mount. -/
theorem fileMaps_perform (h : w.Edits c mount e) (m : ℕ) :
    (w.perform mount e).host.fileMaps.get m = w.host.fileMaps.get m ∨
      mount = .workspace ∧ (w.perform mount e).host.fileMaps.get m =
        (w.workspaceMount.apply e).files := by
  cases mount with
  | scratch => cases h <;> exact .inl rfl
  | workspace =>
    have hmodify : ∀ f : OrdMap Text ℕ → OrdMap Text ℕ,
        (w.perform .workspace e).host.fileMaps = w.host.fileMaps.modify w.runtime.files f →
        f w.workspaceMount.files = (w.workspaceMount.apply e).files →
        (w.perform .workspace e).host.fileMaps.get m = w.host.fileMaps.get m ∨
          VirtualMount.workspace = .workspace ∧ (w.perform .workspace e).host.fileMaps.get m =
            (w.workspaceMount.apply e).files := by
      intro f hmaps hfiles
      rw [hmaps, get_modify]
      split
      · exact .inr ⟨rfl, hfiles⟩
      · exact .inl rfl
    cases e with
    | createFile path record =>
      refine hmodify (fun files => files.set path w.host.records.next) rfl ?_
      cases h <;> rfl
    | createDir => exact .inl rfl
    | removeFile path => exact hmodify (fun files => files.delete path) rfl rfl
    | removeDir => exact .inl rfl
    | renameFile source target record =>
      have hmaps : (w.perform .workspace (.renameFile source target record)).host.fileMaps =
          (w.host.fileMaps.modify w.runtime.files fun files => files.delete source).modify
            w.runtime.files fun files => files.set target record := rfl
      refine hmodify (fun files => (files.delete source).set target record) ?_ rfl
      rw [hmaps, modify_modify]
    | renameDir source target =>
      have hmaps : (w.perform .workspace (.renameDir source target)).host.fileMaps =
          w.host.fileMaps.alloc (w.workspaceMount.apply (.renameDir source target)).files := rfl
      rw [hmaps, get_alloc]
      split
      · exact .inr ⟨rfl, rfl⟩
      · exact .inl rfl

end World

/-! ### Objects of different mounts -/

/-- Some map of the workspace, current or old, holds the object. -/
def Host.InWorkspace (host : Host) (record : ℕ) : Prop :=
  ∃ m k, (host.fileMaps.get m).get k = some record

/-- The descriptor was opened on the workspace or on the package root, as far as its fields tell. -/
def OpenFile.outsideTmp (file : OpenFile) : Prop :=
  file.mount = some .workspace ∨ file.mount = some .packageRoot ∨
    (file.record?.isSome = true ∧ file.writable = false)

namespace World

/-- `/tmp` shares no object with the other mounts, nor with the descriptors opened on them. -/
structure Apart (w : World) : Prop where
  workspace : ∀ r, w.host.InWorkspace r → r < w.host.records.next ∧ ¬w.runtime.scratch.Stores r
  packageRoot : ∀ r, w.host.packageRoot.mount.Stores r →
    r < w.host.records.next ∧ ¬w.runtime.scratch.Stores r
  scratch : ∀ r, w.runtime.scratch.Stores r → r < w.host.records.next
  openFile : ∀ fd file r, w.openFile fd = some file → file.record? = some r →
    r < w.host.records.next ∧ (file.outsideTmp → ¬w.runtime.scratch.Stores r)

variable {w w' : World} {k path : Text} {r : ℕ} {c : Call} {mount : VirtualMount} {e : Mount.Edit ℕ}
    {record : FileRecord}

theorem inWorkspace_of_get (h : w.workspaceMount.files.get k = some r) :
    w.host.InWorkspace r := ⟨w.runtime.files, k, h⟩

/-- Objects that are new somewhere are new objects. -/
theorem Apart.of_fresh (hw : w.Apart)
    (hnext : w.host.records.next ≤ w'.host.records.next)
    (hworkspace : ∀ r, w'.host.InWorkspace r → w.host.InWorkspace r ∨
      (w.host.records.next ≤ r ∧ r < w'.host.records.next ∧ ¬w'.runtime.scratch.Stores r))
    (hscratch : ∀ r, w'.runtime.scratch.Stores r → w.runtime.scratch.Stores r ∨
      (w.host.records.next ≤ r ∧ r < w'.host.records.next))
    (hroot : w'.host.packageRoot = w.host.packageRoot)
    (hopen : ∀ fd file r, w'.openFile fd = some file → file.record? = some r →
      r < w'.host.records.next ∧ (file.outsideTmp → ¬w'.runtime.scratch.Stores r)) :
    w'.Apart := by
  -- what was outside of `/tmp` before stays outside
  have hout : ∀ r, r < w.host.records.next → ¬w.runtime.scratch.Stores r →
      ¬w'.runtime.scratch.Stores r := by
    intro r hr hno hstores
    rcases hscratch r hstores with hold | ⟨hge, -⟩
    · exact hno hold
    · exact absurd hr (Nat.not_lt.2 hge)
  refine ⟨fun r hr => ?_, fun r hr => ?_, fun r hr => ?_, hopen⟩
  · rcases hworkspace r hr with hold | ⟨-, hlt, hno⟩
    · obtain ⟨hlt, hno⟩ := hw.workspace r hold
      exact ⟨hlt.trans_le hnext, hout r hlt hno⟩
    · exact ⟨hlt, hno⟩
  · rw [hroot] at hr
    obtain ⟨hlt, hno⟩ := hw.packageRoot r hr
    exact ⟨hlt.trans_le hnext, hout r hlt hno⟩
  · rcases hscratch r hr with hold | ⟨-, hlt⟩
    · exact (hw.scratch r hold).trans_le hnext
    · exact hlt

/-- The objects that the mounts hold are the same. -/
structure KeepsObjects (w w' : World) : Prop where
  next : w'.host.records.next = w.host.records.next
  fileMaps : w'.host.fileMaps = w.host.fileMaps
  scratch : w'.runtime.scratch = w.runtime.scratch
  packageRoot : w'.host.packageRoot = w.host.packageRoot

theorem Plain.keepsObjects (h : Plain w w') : KeepsObjects w w' := by
  cases h with
  | quiet hq =>
    exact ⟨congrArg Heap.next hq.records, hq.fileMaps, hq.scratch, hq.packageRoot⟩
  | @truncate mount key record hget => cases mount <;> exact ⟨rfl, rfl, rfl, rfl⟩
  | @moved fd target file hfile htarget hne =>
    unfold moveDescriptor closeReplaced
    split <;> exact ⟨rfl, rfl, rfl, rfl⟩
  | duplicated | preopened =>
    unfold placeDuplicate closeReplaced
    split <;> exact ⟨rfl, rfl, rfl, rfl⟩
  | _ => exact ⟨rfl, rfl, rfl, rfl⟩

/-- A descriptor with an origin has an object of its mount. -/
theorem Apart.of_origin (hw : w.Apart) {file : OpenFile} (h : w.Origin file)
    (hr : file.record? = some r) :
    r < w.host.records.next ∧ (file.outsideTmp → ¬w.runtime.scratch.Stores r) := by
  cases h with
  | @old fd file₀ _ hfile hbare =>
    obtain ⟨hlt, hout⟩ := hw.openFile fd file₀ r hfile (OpenFile.record?_eq_of_bare hbare ▸ hr)
    refine ⟨hlt, fun hfileOut => hout ?_⟩
    rw [OpenFile.outsideTmp, OpenFile.mount_eq_of_bare hbare, OpenFile.record?_eq_of_bare hbare,
      OpenFile.writable_eq_of_bare hbare] at hfileOut
    exact hfileOut
  | opened hopens hoffset =>
    cases hopens with
    | directory => cases hr
    | @mounted mount path record offset rights fdflags hpath hget =>
      obtain rfl : record = r := Option.some.inj hr
      cases mount with
      | workspace =>
        obtain ⟨hlt, hno⟩ := hw.workspace record (inWorkspace_of_get hget)
        exact ⟨hlt, fun _ => hno⟩
      | scratch =>
        refine ⟨hw.scratch record ⟨path, hget⟩, fun hout => ?_⟩
        rcases hout with hmount | hmount | ⟨-, hwritable⟩
        · cases hmount
        · cases hmount
        · cases hwritable
    | @packageRoot path record offset rights hpath hget =>
      obtain rfl : record = r := Option.some.inj hr
      obtain ⟨hlt, hno⟩ := hw.packageRoot record ⟨path, hget⟩
      exact ⟨hlt, fun _ => hno⟩
    | @readOnly path record offset rights hpath hwritable hget =>
      obtain rfl : record = r := Option.some.inj hr
      obtain ⟨hlt, hno⟩ := hw.workspace record (inWorkspace_of_get hget)
      exact ⟨hlt, fun _ => hno⟩
  | preopened => cases hr
  | stream hrecord hdirectory hmount => rw [hrecord] at hr; cases hr

theorem Plain.apart (h : Plain w w') (hw : w.Apart) : w'.Apart := by
  have hkeeps := h.keepsObjects
  refine hw.of_fresh hkeeps.next.ge (fun r hr => .inl ?_) (fun r hr => .inl ?_)
    hkeeps.packageRoot fun fd file r hfile hr => ?_
  · rwa [Host.InWorkspace, hkeeps.fileMaps] at hr
  · rwa [hkeeps.scratch] at hr
  · rw [hkeeps.next, hkeeps.scratch]
    exact hw.of_origin (h.origin hfile) hr

theorem Plains.apart (h : Plains w w') (hw : w.Apart) : w'.Apart := by
  induction h with
  | refl => exact hw
  | tail _ hstep ih => exact hstep.apart ih

theorem outsideTmp_follow (w : World) (mount : VirtualMount) (e : Mount.Edit ℕ) (file : OpenFile) :
    (w.follow mount e file).outsideTmp ↔ file.outsideTmp := by
  rw [follow_eq]
  exact Iff.rfl

theorem record?_follow (w : World) (mount : VirtualMount) (e : Mount.Edit ℕ) (file : OpenFile) :
    (w.follow mount e file).record? = file.record? := by
  rw [follow_eq]
  rfl

/-- The maps of the workspace hold what they held, or the object that the call allocates. -/
theorem inWorkspace_perform (h : w.Edits c mount e) (hr : (w.perform mount e).host.InWorkspace r) :
    w.host.InWorkspace r ∨ mount = .workspace ∧ r = w.host.records.next ∧
      (w.perform mount e).host.records.next = w.host.records.next + 1 := by
  obtain ⟨m, k, hk⟩ := hr
  rcases fileMaps_perform h m with hsame | ⟨rfl, hedited⟩
  · exact .inl ⟨m, k, hsame ▸ hk⟩
  · rw [hedited] at hk
    rcases h.stores ⟨k, hk⟩ with ⟨k', hk'⟩ | hnew
    · exact .inl (inWorkspace_of_get hk')
    · exact .inr ⟨rfl, hnew⟩

theorem apart_perform (hw : w.Apart) (h : w.Edits c mount e) : (w.perform mount e).Apart := by
  have hnext := w.next_perform mount e
  have hscratch : ∀ r, (w.perform mount e).runtime.scratch.Stores r →
      w.runtime.scratch.Stores r ∨ mount = .scratch ∧ r = w.host.records.next ∧
        (w.perform mount e).host.records.next = w.host.records.next + 1 := by
    intro r hr
    cases mount with
    | workspace =>
      have hsame : (w.perform .workspace e).mountOf .scratch = w.mountOf .scratch :=
        mountOf_perform_of_ne h (by decide)
      have hsame : (w.perform .workspace e).runtime.scratch = w.runtime.scratch := hsame
      exact .inl (hsame ▸ hr)
    | scratch =>
      have hedited : (w.perform .scratch e).runtime.scratch = w.runtime.scratch.apply e :=
        mountOf_perform h
      rw [hedited] at hr
      exact (h.stores hr).imp_right fun hnew => ⟨rfl, hnew⟩
  refine hw.of_fresh hnext (fun r hr => ?_) (fun r hr => ?_) (framed_perform w mount e).packageRoot
    fun fd file r hfile hr => ?_
  · rcases inWorkspace_perform h hr with hold | ⟨rfl, rfl, hone⟩
    · exact .inl hold
    · refine .inr ⟨le_refl _, by omega, fun hstores => ?_⟩
      rcases hscratch _ hstores with hold | ⟨hmount, -⟩
      · exact lt_irrefl _ (hw.scratch _ hold)
      · cases hmount
  · rcases hscratch r hr with hold | ⟨-, rfl, hone⟩
    · exact .inl hold
    · exact .inr ⟨le_refl _, by omega⟩
  · rw [openFile, openFiles_perform, get_mapVals] at hfile
    obtain ⟨old, hold, rfl⟩ := Option.map_eq_some_iff.1 hfile
    rw [record?_follow] at hr
    obtain ⟨hlt, hout⟩ := hw.openFile fd old r hold hr
    refine ⟨hlt.trans_le hnext, fun hfileOut hstores => ?_⟩
    rcases hscratch r hstores with hin | ⟨-, rfl, -⟩
    · exact hout ((outsideTmp_follow w mount e old).1 hfileOut) hin
    · exact lt_irrefl _ hlt

theorem apart_call (hw : w.Apart) (c : Call) : (w.call c).Apart := by
  rcases w.call_effects c with h | ⟨mount, e, he, h⟩
  · exact h.apart hw
  · exact h.apart (apart_perform hw he)

/-! ### What another runtime sees -/

/-- The shared objects only grow: a map of the workspace gets no object but a new one. -/
structure Grows (w w' : World) : Prop where
  next : w.host.records.next ≤ w'.host.records.next
  workspace : ∀ r, w'.host.InWorkspace r → w.host.InWorkspace r ∨
    (w.host.records.next ≤ r ∧ r < w'.host.records.next)
  packageRoot : w'.host.packageRoot = w.host.packageRoot

theorem Grows.refl (w : World) : Grows w w := ⟨le_refl _, fun _ hr => .inl hr, rfl⟩

/-- Whichever runtimes look at them. -/
theorem Grows.congr (h : Grows w w') (r r' : Runtime) : Grows ⟨w.host, r⟩ ⟨w'.host, r'⟩ :=
  ⟨h.next, h.workspace, h.packageRoot⟩

theorem Grows.trans {w'' : World} (h : Grows w w') (h' : Grows w' w'') : Grows w w'' := by
  refine ⟨h.next.trans h'.next, fun r hr => ?_, h'.packageRoot.trans h.packageRoot⟩
  rcases h'.workspace r hr with hmid | ⟨hge, hlt⟩
  · rcases h.workspace r hmid with hold | ⟨hge, hlt⟩
    · exact .inl hold
    · exact .inr ⟨hge, hlt.trans_le h'.next⟩
  · exact .inr ⟨h.next.trans hge, hlt⟩

theorem KeepsObjects.grows (h : KeepsObjects w w') : Grows w w' := by
  refine ⟨h.next.ge, fun r hr => .inl ?_, h.packageRoot⟩
  rwa [Host.InWorkspace, h.fileMaps] at hr

theorem Plains.grows (h : Plains w w') : Grows w w' := by
  induction h with
  | refl => exact Grows.refl w
  | tail _ hstep ih => exact ih.trans hstep.keepsObjects.grows

theorem grows_perform (h : w.Edits c mount e) : Grows w (w.perform mount e) := by
  refine ⟨w.next_perform mount e, fun r hr => ?_, (framed_perform w mount e).packageRoot⟩
  rcases inWorkspace_perform h hr with hold | ⟨-, rfl, hone⟩
  · exact .inl hold
  · exact .inr ⟨le_refl _, by omega⟩

theorem grows_call (w : World) (c : Call) : Grows w (w.call c) := by
  rcases w.call_effects c with h | ⟨mount, e, he, h⟩
  · exact h.grows
  · exact (grows_perform he).trans h.grows

/-- A runtime that does nothing stays apart while the shared objects grow. -/
theorem Apart.of_grows {runtime : Runtime} (hw : (World.mk w.host runtime).Apart) (h : Grows w w') :
    (World.mk w'.host runtime).Apart := by
  refine hw.of_fresh h.next (fun r hr => ?_) (fun r hr => .inl hr) h.packageRoot
    fun fd file r hfile hr => ?_
  · refine (h.workspace r hr).imp_right fun ⟨hge, hlt⟩ => ⟨hge, hlt, fun hstores => ?_⟩
    exact absurd (hw.scratch r hstores) (Nat.not_lt.2 hge)
  · obtain ⟨hlt, hout⟩ := hw.openFile fd file r hfile hr
    exact ⟨hlt.trans_le h.next, hout⟩

/-! ### The workspace that a child command returns -/

/-- Setting one entry of one map to a new object. -/
theorem grows_of_set (m : ℕ) (path : Text)
    (hnext : w'.host.records.next = w.host.records.next + 1)
    (hmaps : w'.host.fileMaps =
      w.host.fileMaps.modify m fun files => files.set path w.host.records.next)
    (hroot : w'.host.packageRoot = w.host.packageRoot) : Grows w w' := by
  refine ⟨by omega, fun r ⟨m', k, hk⟩ => ?_, hroot⟩
  rw [hmaps, get_modify] at hk
  split at hk
  next hm =>
    rw [get_set] at hk
    split at hk
    · exact .inr ⟨(Option.some.inj hk).le, by rw [← Option.some.inj hk]; omega⟩
    · exact .inl ⟨m, k, hk⟩
  · exact .inl ⟨m', k, hk⟩

theorem grows_putSnapshotFile (w : World) (path : Text) (record : FileRecord) :
    Grows w (w.putSnapshotFile path record) :=
  grows_of_set w.host.workspace.files path rfl rfl rfl

theorem grows_resetWorkspace (w : World) (directories : List Text) :
    Grows w (w.resetWorkspace directories) := by
  refine ⟨le_refl _, fun r ⟨m, k, hk⟩ => ?_, rfl⟩
  have hmaps : (w.resetWorkspace directories).host.fileMaps =
      w.host.fileMaps.modify w.host.workspace.files fun _ => empty := rfl
  rw [hmaps, get_modify] at hk
  split at hk
  · cases hk
  · exact .inl ⟨m, k, hk⟩

theorem grows_importWasiWorkspaceSnapshot (w : World) (snapshot : SnapshotTree) :
    Grows w (w.importWasiWorkspaceSnapshot snapshot) := by
  unfold importWasiWorkspaceSnapshot
  split
  · exact Grows.refl w
  have hreset := w.grows_resetWorkspace snapshot.directories
  have hfiles := foldl_rel Grows.refl (fun _ _ _ h h' => h.trans h')
    (fun w' (file : SnapshotFile) => grows_putSnapshotFile w' file.path
      ⟨file.bytes, some file.path, some file.mtimeMs, false⟩) snapshot.files
    (w.resetWorkspace snapshot.directories)
  have hfallback := foldl_rel Grows.refl (fun _ _ _ h h' => h.trans h')
    (f := putFallbackFile) (fun w' file => by
      unfold putFallbackFile
      split
      · exact Grows.refl w'
      · exact grows_putSnapshotFile ..) w.fallbackFiles
    (snapshot.files.foldl (fun w' file => w'.putSnapshotFile file.path
      ⟨file.bytes, some file.path, some file.mtimeMs, false⟩)
      (w.resetWorkspace snapshot.directories))
  exact ((hreset.trans hfiles).trans hfallback).trans (quiet_markWorkspaceDirty _).plains.grows

theorem grows_rebindOpenFile (w : World) (fd : Int) (file : OpenFile) :
    Grows w (w.rebindOpenFile fd file) := by
  rcases w.rebindOpenFile_cases fd file with
    h | ⟨_, _, _, path, _, _, _, _, _, ⟨_, h⟩ | ⟨_, _, _, h⟩⟩
  · rw [h]
    exact Grows.refl w
  · rw [h]
    exact ⟨le_refl _, fun _ hr => .inl hr, rfl⟩
  · rw [h]
    exact grows_of_set w.runtime.files path rfl rfl rfl

theorem grows_childSnapshot (w : World) (snapshot : SnapshotTree) :
    Grows w (w.importWasiWorkspaceSnapshot snapshot).rebindOpenWorkspaceFiles :=
  rebind_induction (P := Grows w) _
    (fun w' fd file _ hw' => hw'.trans (w'.grows_rebindOpenFile fd file))
    (w.grows_importWasiWorkspaceSnapshot snapshot)

theorem apart_rebindOpenFile (hw : w.Apart) (fd : Int) (file : OpenFile) :
    (w.rebindOpenFile fd file).Apart := by
  have hgrows := w.grows_rebindOpenFile fd file
  -- the descriptor gets an object of the workspace, every other one keeps its own
  have hopen : ∀ (w' : World) (record offset : ℕ) (writable : Bool),
      w'.runtime.openFiles = w.runtime.openFiles.set fd
      { file with kind := .file record writable offset } →
      w'.runtime.scratch = w.runtime.scratch → Grows w w' → w'.host.InWorkspace record →
      w'.Apart := by
    intro w' record offset writable htable hscratch hgrows hrecord
    have hworkspace : ∀ r, w'.host.InWorkspace r → r < w'.host.records.next ∧
        ¬w'.runtime.scratch.Stores r := by
      intro r hr
      rw [hscratch]
      rcases hgrows.workspace r hr with hold | ⟨hge, hlt⟩
      · obtain ⟨hlt, hno⟩ := hw.workspace r hold
        exact ⟨hlt.trans_le hgrows.next, hno⟩
      · exact ⟨hlt, fun hstores => absurd (hw.scratch r hstores) (Nat.not_lt.2 hge)⟩
    refine hw.of_fresh hgrows.next (fun r hr => ?_) (fun r hr => .inl (hscratch ▸ hr))
      hgrows.packageRoot fun fd' file' r hfile' hr => ?_
    · refine (hgrows.workspace r hr).imp_right fun ⟨hge, hlt⟩ => ⟨hge, hlt, (hworkspace r hr).2⟩
    · rw [openFile, htable, get_set] at hfile'
      split at hfile'
      · obtain rfl := Option.some.inj hfile'
        obtain rfl : record = r := Option.some.inj hr
        exact ⟨(hworkspace record hrecord).1, fun _ => (hworkspace record hrecord).2⟩
      · obtain ⟨hlt, hout⟩ := hw.openFile fd' file' r hfile' hr
        exact ⟨hlt.trans_le hgrows.next, fun h => hscratch ▸ hout h⟩
  rcases w.rebindOpenFile_cases fd file with
    h | ⟨_, writable, offset, path, record, _, _, _, _, ⟨hget, h⟩ | ⟨_, _, rfl, h⟩⟩
  · rw [h]
    exact hw
  · rw [h] at hgrows ⊢
    exact hopen _ record offset writable rfl rfl hgrows (inWorkspace_of_get hget)
  · rw [h] at hgrows ⊢
    exact hopen _ _ offset writable rfl rfl hgrows
      (inWorkspace_of_get (w.get_createFile .workspace path))

theorem apart_importWasiWorkspaceSnapshot (hw : w.Apart) (snapshot : SnapshotTree) :
    (w.importWasiWorkspaceSnapshot snapshot).Apart := by
  have hruntime : w.importWasiWorkspaceSnapshot snapshot =
      ⟨(w.importWasiWorkspaceSnapshot snapshot).host, w.runtime⟩ := by
    rw [← (w.imported_importWasiWorkspaceSnapshot snapshot).runtime]
  rw [hruntime]
  exact hw.of_grows (w.grows_importWasiWorkspaceSnapshot snapshot)

theorem apart_childSnapshot (hw : w.Apart) (snapshot : SnapshotTree) :
    (w.importWasiWorkspaceSnapshot snapshot).rebindOpenWorkspaceFiles.Apart :=
  rebind_induction (P := Apart) _ (fun _ fd file _ hw' => apart_rebindOpenFile hw' fd file)
    (apart_importWasiWorkspaceSnapshot hw snapshot)

/-! ### Names of the objects of the workspace -/

/-- Every object of the workspace of the runtime carries the key it is stored under. -/
def Named (w : World) : Prop :=
  ∀ k r, w.workspaceMount.files.get k = some r → (w.host.records.get r).path = some k

/-- Two keys of the workspace never name one object. -/
theorem Named.inj (hw : w.Named) {k' : Text} (hk : w.workspaceMount.files.get k = some r)
    (hk' : w.workspaceMount.files.get k' = some r) : k = k' :=
  Option.some.inj ((hw k r hk).symm.trans (hw k' r hk'))

theorem Named.of_eq (hw : w.Named)
    (hfiles : ∀ k r, w'.workspaceMount.files.get k = some r → w.workspaceMount.files.get k = some r)
    (hpath : ∀ k r, w.workspaceMount.files.get k = some r →
      (w'.host.records.get r).path = (w.host.records.get r).path) : w'.Named := by
  intro k r hk
  rw [hpath k r (hfiles k r hk)]
  exact hw k r (hfiles k r hk)

/-- Plain effects change contents of objects but not their paths. -/
theorem Plain.recordPath (h : Plain w w') (r : ℕ) :
    (w'.host.records.get r).path = (w.host.records.get r).path := by
  have hmodify : ∀ (record : ℕ) (f : FileRecord → FileRecord), (∀ x, (f x).path = x.path) →
      ((w.host.records.modify record f).get r).path = (w.host.records.get r).path := by
    intro record f hf
    rw [get_modify]
    split
    next heq => rw [hf, heq]
    · rfl
  cases h with
  | quiet hq => rw [hq.records]
  | @content fd file record bytes hfile hrecord hwritable hmount =>
    exact hmodify record (fun r => { r with bytes := bytes }) fun _ => rfl
  | @adopt fd file record bytes hfile hrecord hwritable hmount =>
    exact hmodify record (fun r => { r with bytes := bytes, fallback := false }) fun _ => rfl
  | @truncate mount key record hget =>
    cases mount with
    | workspace =>
      exact hmodify record (fun r => { r with bytes := [], fallback := false }) fun _ => rfl
    | scratch => exact hmodify record (fun r => { r with bytes := [] }) fun _ => rfl
  | @moved fd target file hfile htarget hne =>
    unfold moveDescriptor closeReplaced
    split <;> rfl
  | duplicated | preopened =>
    unfold placeDuplicate closeReplaced
    split <;> rfl
  | _ => rfl

theorem Plain.named (h : Plain w w') (hw : w.Named) : w'.Named := by
  have hmount : w'.workspaceMount = w.workspaceMount := h.mountOf .workspace
  exact hw.of_eq (fun k r hk => hmount ▸ hk) fun k r _ => h.recordPath r

theorem Plains.named (h : Plains w w') (hw : w.Named) : w'.Named := by
  induction h with
  | refl => exact hw
  | tail _ hstep ih => exact hstep.named ih

/-- The paths of the objects after a loop that renames some of them: an object that occurs under one
key only gets at most the path made from that key. -/
theorem path_repathRecords (w : World) (source target : Text) (files : OrdMap Text ℕ)
    (honly : ∀ j, files.get j = some r → j = k) :
    ((w.repathRecords source target files).host.records.get r).path =
      if files.get k = some r ∧ SepPath.AtOrBelow '/' source k then
        some (SepPath.rebase source target k)
      else (w.host.records.get r).path := by
  have hloop : ∀ (entries : List (Text × ℕ)) (records : Heap FileRecord),
      (∀ e ∈ entries, e.2 = r → e.1 = k) →
      ((entries.foldl (fun records e =>
        if SepPath.AtOrBelow '/' source e.1 then
          records.modify e.2 fun r => { r with path := some (SepPath.rebase source target e.1) }
        else records) records).get r).path =
      if (k, r) ∈ entries ∧ SepPath.AtOrBelow '/' source k then
        some (SepPath.rebase source target k)
      else (records.get r).path := by
    intro entries
    induction entries with
    | nil => simp
    | cons e entries ih =>
      intro records hkeys
      rw [List.foldl_cons, ih _ fun e' he' => hkeys e' (List.mem_cons_of_mem _ he')]
      by_cases her : e.2 = r
      · -- the entry of the object itself
        obtain rfl : e.1 = k := hkeys e List.mem_cons_self her
        have hmem : (e.1, r) ∈ e :: entries := by
          rw [← her]
          exact List.mem_cons_self
        by_cases hat : SepPath.AtOrBelow '/' source e.1
        · have hin : (e.1, r) ∈ e :: entries ∧ SepPath.AtOrBelow '/' source e.1 := ⟨hmem, hat⟩
          rw [if_pos hin, if_pos hat]
          split
          · rfl
          · rw [her, get_modify_self]
        · simp only [hat, and_false, if_false]
      · have hmem : (k, r) ∈ e :: entries ↔ (k, r) ∈ entries := by
          rw [List.mem_cons, or_iff_right]
          rintro rfl
          exact her rfl
        simp only [hmem]
        split
        · rfl
        · split
          · rw [get_modify_ne _ _ (Ne.symm her)]
          · rfl
  simp only [← files.mem_entries]
  exact hloop files.entries w.host.records fun e he her =>
    honly e.1 ((files.mem_entries e.1 r).1 (her ▸ he))

/-- The object that a rename replaces is the only one that loses its path. -/
theorem recordPath_dropReplacedPath (w : World) (record : ℕ) {replaced : Option ℕ}
    (hr : replaced ≠ some r) :
    ((w.dropReplacedPath record replaced).host.records.get r).path =
      (w.host.records.get r).path := by
  cases replaced with
  | none => rfl
  | some old =>
    have hne : r ≠ old := fun h => hr (h ▸ rfl)
    change ((if old = record then w.host.records else
      w.host.records.modify old fun x => { x with path := none } : Heap FileRecord).get r).path = _
    split
    · rfl
    · rw [get_modify_ne _ _ hne]

/-- An edit of `/tmp` keeps the paths of objects that are not there. -/
theorem recordPath_perform_scratch (h : w.Edits c .scratch e) (hr : r < w.host.records.next)
    (hno : ¬w.runtime.scratch.Stores r) :
    ((w.perform .scratch e).host.records.get r).path = (w.host.records.get r).path := by
  have hcreate :
      ∀ path, ((w.perform .scratch (.createFile path w.host.records.next)).host.records.get
      r).path = (w.host.records.get r).path := by
    intro path
    change ((w.host.records.alloc _).get r).path = _
    rw [get_alloc_of_lt _ _ hr]
  cases h with
  | createFile | createFile2 => exact hcreate _
  | createDir | removeFile | removeDir => rfl
  | @renameFile _ _ _ _ _ source target record hkeys hget hallow =>
    have hne : r ≠ record := fun heq => hno ⟨source, heq ▸ hget⟩
    have hreplaced : w.runtime.scratch.files.get target ≠ some r := fun heq => hno ⟨target, heq⟩
    change (((w.dropReplacedPath record (w.runtime.scratch.files.get target)).host.records.modify
      record fun x => { x with path := some target }).get r).path = _
    rw [get_modify_ne _ _ hne, recordPath_dropReplacedPath _ _ hreplaced]
  | @renameDir _ _ _ _ _ source target hkeys hallow =>
    change ((w.repathRecords source target w.runtime.scratch.files).host.records.get r).path = _
    rw [path_repathRecords (k := []) _ _ _ _ fun j hj => absurd ⟨j, hj⟩ hno]
    exact if_neg fun hin => hno ⟨[], hin.1⟩

/-- The key of an object after an allowed edit of the workspace is the path it is given. -/
theorem named_perform_workspace (hw : w.Named) (hapart : w.Apart) (h : w.Edits c .workspace e) :
    (w.perform .workspace e).Named := by
  have hmount : (w.perform .workspace e).workspaceMount = w.workspaceMount.apply e :=
    mountOf_perform h
  have hlt : ∀ {k r}, w.workspaceMount.files.get k = some r → r < w.host.records.next :=
    fun hk => (hapart.workspace _ (inWorkspace_of_get hk)).1
  intro k r hk
  rw [hmount] at hk
  have hcreate : ∀ path, ((w.workspaceMount.files.set path w.host.records.next).get k = some r) →
      ((w.perform .workspace (.createFile path w.host.records.next)).host.records.get r).path =
        some k := by
    intro path hk
    change ((w.host.records.alloc ⟨[], some path, none, false⟩).get r).path = some k
    rw [get_set] at hk
    split at hk
    next heq => rw [← Option.some.inj hk, get_alloc_next, heq]
    · rw [get_alloc_of_lt _ _ (hlt hk), hw k r hk]
  cases h with
  | createFile | createFile2 => exact hcreate _ hk
  | createDir => exact hw k r hk
  | @removeFile _ _ _ _ path hbase hkey hallow =>
    have hold : w.workspaceMount.files.get k = some r := by
      have hdelete : (w.workspaceMount.files.delete path).get k = some r := hk
      rw [get_delete] at hdelete
      split at hdelete
      · cases hdelete
      · exact hdelete
    exact hw k r hold
  | removeDir => exact hw k r hk
  | @renameFile _ _ _ _ _ source target record hkeys hget hallow =>
    have hget : w.workspaceMount.files.get source = some record := hget
    have hset : ((w.workspaceMount.files.delete source).set target record).get k = some r := hk
    change (((w.dropReplacedPath record (w.workspaceMount.files.get target)).host.records.modify
      record fun x => { x with fallback := false, path := some target }).get r).path = some k
    rw [get_set] at hset
    split at hset
    next heq => rw [← Option.some.inj hset, get_modify_self, heq]
    next hkt =>
      rw [get_delete] at hset
      split at hset
      · cases hset
      next hks =>
        -- the object is neither the moved nor the replaced one, since its key is another
        have hne : r ≠ record := fun heq => hks (hw.inj hset (heq ▸ hget))
        have hreplaced : w.workspaceMount.files.get target ≠ some r :=
          fun heq => hkt (hw.inj hset heq)
        rw [get_modify_ne _ _ hne, recordPath_dropReplacedPath _ _ hreplaced, hw k r hset]
  | @renameDir _ _ _ _ _ source target hkeys hallow =>
    obtain ⟨j, a, hj, hmove, rfl⟩ := exists_of_get_rekey
      (m := w.workspaceMount.files) (f := SepPath.move '/' source target)
      (g := fun _ file => file) hk
    change ((w.repathRecords source target w.workspaceMount.files).host.records.get a).path = some k
    rw [path_repathRecords (k := j) _ _ _ _ fun i hi => hw.inj hi hj, hw j a hj, ← hmove]
    by_cases hat : SepPath.AtOrBelow '/' source j
    · rw [if_pos ⟨hj, hat⟩, SepPath.move_of_atOrBelow target hat]
    · rw [if_neg fun hin => hat hin.2, SepPath.move_of_not_atOrBelow target hat]

theorem named_perform (hw : w.Named) (hapart : w.Apart) (h : w.Edits c mount e) :
    (w.perform mount e).Named := by
  cases mount with
  | workspace => exact named_perform_workspace hw hapart h
  | scratch =>
    have hmount : (w.perform .scratch e).mountOf .workspace = w.mountOf .workspace :=
      mountOf_perform_of_ne h (by decide)
    have hmount : (w.perform .scratch e).workspaceMount = w.workspaceMount := hmount
    refine hw.of_eq (fun k r hk => hmount ▸ hk) fun k r hk => ?_
    obtain ⟨hlt, hno⟩ := hapart.workspace r (inWorkspace_of_get hk)
    exact recordPath_perform_scratch h hlt hno

theorem named_call (hw : w.Named) (hapart : w.Apart) (c : Call) : (w.call c).Named := by
  rcases w.call_effects c with h | ⟨mount, e, he, h⟩
  · exact h.named hw
  · exact h.named (named_perform hw hapart he)

/-- The runtime keeps the maps of the workspace record. -/
def SharesMaps (w : World) : Prop :=
  w.runtime.files = w.host.workspace.files ∧ w.runtime.workspaceDirs = w.host.workspace.dirs

theorem KeepsMaps.sharesMaps (h : KeepsMaps w w') (hw : w.SharesMaps) : w'.SharesMaps :=
  ⟨(h.files.trans hw.1).trans h.workspaceFiles.symm, (h.dirs.trans hw.2).trans h.workspaceDirs.symm⟩

/-- A new object under a key of the workspace. -/
theorem named_of_set (hw : w.Named) (hapart : w.Apart) (hrecord : record.path = some path)
    (hfiles : w'.workspaceMount.files = w.workspaceMount.files.set path w.host.records.next)
    (hrecords : w'.host.records = w.host.records.alloc record) : w'.Named := by
  intro k r hk
  rw [hfiles, get_set] at hk
  rw [hrecords]
  split at hk
  next heq => rw [← Option.some.inj hk, get_alloc_next, hrecord, heq]
  rw [get_alloc_of_lt _ _ (hapart.workspace r (inWorkspace_of_get hk)).1]
  exact hw k r hk

theorem workspaceMount_putSnapshotFile (hw : w.SharesMaps) (path : Text) (record : FileRecord) :
    (w.putSnapshotFile path record).workspaceMount.files =
      w.workspaceMount.files.set path w.host.records.next := by
  have hmaps : (w.putSnapshotFile path record).workspaceMount.files =
      (w.host.fileMaps.modify w.host.workspace.files fun files =>
        files.set path w.host.records.next).get w.runtime.files := rfl
  rw [hmaps, ← hw.1, get_modify_self]
  rfl

/-- What the loops of an import keep. -/
structure Importing (w : World) : Prop where
  sharesMaps : w.SharesMaps
  apart : w.Apart
  named : w.Named

theorem Importing.putSnapshotFile (hw : w.Importing) (hrecord : record.path = some path) :
    (w.putSnapshotFile path record).Importing where
  sharesMaps := (imported_putSnapshotFile w path record).keepsMaps.sharesMaps hw.sharesMaps
  apart := by
    have hgrows := w.grows_putSnapshotFile path record
    exact Apart.of_grows (w := w) hw.apart hgrows
  named := named_of_set hw.named hw.apart hrecord
    (workspaceMount_putSnapshotFile hw.sharesMaps path record) rfl

theorem files_resetWorkspace (hw : w.SharesMaps) (directories : List Text) :
    (w.resetWorkspace directories).workspaceMount.files = empty := by
  have hmaps : (w.resetWorkspace directories).workspaceMount.files =
      (w.host.fileMaps.modify w.host.workspace.files fun _ => empty).get w.runtime.files := rfl
  rw [hmaps, ← hw.1, get_modify_self]

theorem Importing.resetWorkspace (hw : w.Importing) (directories : List Text) :
    (w.resetWorkspace directories).Importing := by
  have hgrows := w.grows_resetWorkspace directories
  refine ⟨hw.sharesMaps, Apart.of_grows (w := w) hw.apart hgrows, fun k r hk => ?_⟩
  rw [files_resetWorkspace hw.sharesMaps] at hk
  cases hk

theorem Importing.putFallbackFile (hw : w.Importing) (file : Text × Bytes) :
    (w.putFallbackFile file).Importing := by
  unfold World.putFallbackFile
  split
  · exact hw
  · exact hw.putSnapshotFile rfl

theorem Importing.markWorkspaceDirty (hw : w.Importing) : w.markWorkspaceDirty.Importing :=
  ⟨hw.sharesMaps, (quiet_markWorkspaceDirty w).plains.apart hw.apart,
    (quiet_markWorkspaceDirty w).plains.named hw.named⟩

theorem Importing.importWasiWorkspaceSnapshot (hw : w.Importing) (snapshot : SnapshotTree) :
    (w.importWasiWorkspaceSnapshot snapshot).Importing := by
  unfold World.importWasiWorkspaceSnapshot
  split
  · exact hw
  have hfiles := List.foldlRecOn (motive := Importing) snapshot.files
    (fun w' file => w'.putSnapshotFile file.path
      ⟨file.bytes, some file.path, some file.mtimeMs, false⟩)
    (hw.resetWorkspace snapshot.directories) fun w' hw' file _ => hw'.putSnapshotFile rfl
  exact (List.foldlRecOn (motive := Importing) w.fallbackFiles World.putFallbackFile hfiles
    fun w' hw' file _ => hw'.putFallbackFile file).markWorkspaceDirty

theorem named_rebindOpenFile (hw : w.Named) (hapart : w.Apart) (fd : Int) (file : OpenFile) :
    (w.rebindOpenFile fd file).Named := by
  rcases w.rebindOpenFile_cases fd file with
    h | ⟨_, _, _, path, _, _, _, _, _, ⟨_, h⟩ | ⟨_, _, _, h⟩⟩
  · rw [h]
    exact hw
  · rw [h]
    exact hw.of_eq (fun _ _ hk => hk) fun _ _ _ => rfl
  · rw [h]
    have hfiles : (w.createFile .workspace path).workspaceMount.files =
        w.workspaceMount.files.set path w.host.records.next := by
      have hmaps : (w.createFile .workspace path).workspaceMount.files =
          (w.host.fileMaps.modify w.runtime.files fun files =>
            files.set path w.host.records.next).get w.runtime.files := rfl
      rw [hmaps, get_modify_self]
      rfl
    have hnew : (⟨[], some path, none, false⟩ : FileRecord).path = some path := rfl
    exact named_of_set hw hapart hnew hfiles rfl

theorem named_childSnapshot (hshares : w.SharesMaps) (hapart : w.Apart) (hw : w.Named)
    (snapshot : SnapshotTree) :
    (w.importWasiWorkspaceSnapshot snapshot).rebindOpenWorkspaceFiles.Named := by
  refine (rebind_induction (P := fun w' => w'.Apart ∧ w'.Named) _ (fun w' fd file _ hw' => ?_)
    ?_).2
  · exact ⟨apart_rebindOpenFile hw'.1 fd file, named_rebindOpenFile hw'.2 hw'.1 fd file⟩
  · have himported := Importing.importWasiWorkspaceSnapshot ⟨hshares, hapart, hw⟩ snapshot
    exact ⟨himported.apart, himported.named⟩

end World

/-! ### The start of a run -/

namespace FileTable

/-- Every object of the table is allocated and carries the key it is stored under. -/
def Keyed (t : FileTable) : Prop :=
  ∀ k r, t.files.get k = some r → r < t.records.next ∧ (t.records.get r).path = some k

variable {t : FileTable}

theorem Keyed.put (ht : t.Keyed) {path : Text} {record : FileRecord}
    (hrecord : record.path = some path) : (t.put path record).Keyed := by
  intro k r hk
  have hset : (t.files.set path t.records.next).get k = some r := hk
  rw [get_set] at hset
  split at hset
  next heq =>
    rw [← Option.some.inj hset]
    refine ⟨Nat.lt_succ_self _, ?_⟩
    change ((t.records.alloc record).get t.records.next).path = some k
    rw [get_alloc_next, hrecord, heq]
  · obtain ⟨hlt, hpath⟩ := ht k r hset
    refine ⟨hlt.trans (Nat.lt_succ_self _), ?_⟩
    change ((t.records.alloc record).get r).path = some k
    rw [get_alloc_of_lt _ _ hlt, hpath]

theorem Keyed.putFallbackFile (ht : t.Keyed) (file : PackageFile) :
    (t.putFallbackFile file).Keyed := by
  unfold FileTable.putFallbackFile
  split
  · exact ht
  · exact ht.put rfl

/-- The objects that were allocated stay as they are. -/
def Extends (records records' : Heap FileRecord) : Prop :=
  records.next ≤ records'.next ∧ ∀ r < records.next, records'.get r = records.get r

theorem extends_put (t : FileTable) (path : Text) (record : FileRecord) :
    Extends t.records (t.put path record).records :=
  ⟨Nat.le_succ _, fun _ hr => get_alloc_of_lt _ _ hr⟩

/-- The table of the package root adds objects to those that are there. -/
theorem extends_readOnlyPackageRootMount (records : Heap FileRecord) (files : List PackageFile) :
    Extends records (readOnlyPackageRootMount records files).1 := by
  refine foldl_rel (r := fun t t' : FileTable => Extends t.records t'.records)
    (fun t => ⟨le_refl _, fun _ _ => rfl⟩) (fun t t' t'' h h' => ⟨h.1.trans h'.1, fun r hr => ?_⟩)
    (fun t file => t.extends_put file.path _) files ⟨records, empty⟩
  rw [h'.2 r (hr.trans_le h.1), h.2 r hr]

theorem keyed_empty (records : Heap FileRecord) : Keyed ⟨records, empty⟩ := by
  intro k r hk
  cases hk

theorem keyed_putPackageFiles (ht : t.Keyed) (files : List PackageFile) :
    (files.foldl putPackageFile t).Keyed :=
  List.foldlRecOn (motive := Keyed) files putPackageFile ht fun _ ht' _ _ => ht'.put rfl

end FileTable

/-- The table behind the workspace that a run starts with. -/
theorem exists_ofMounts_createWasiWorkspaceMount (snapshot : Option World.SnapshotTree)
    (files rootFiles : List PackageFile) :
    ∃ table dirs writable, table.Keyed ∧
      createWasiWorkspaceMount snapshot files rootFiles =
        Host.ofMounts table dirs writable rootFiles := by
  cases snapshot with
  | none =>
    exact ⟨_, _, _, FileTable.keyed_putPackageFiles (FileTable.keyed_empty _) files, rfl⟩
  | some snapshot =>
    have hstored := List.foldlRecOn (motive := FileTable.Keyed) snapshot.files
      FileTable.putSnapshotFile (FileTable.keyed_empty Heap.empty) fun _ ht _ _ => ht.put rfl
    have htable := List.foldlRecOn (motive := FileTable.Keyed) files FileTable.putFallbackFile
      hstored fun _ ht file _ => ht.putFallbackFile file
    exact ⟨_, _, _, htable, rfl⟩

namespace World

variable {table : FileTable}

/-- Before the first call every object of the workspace carries its key. -/
theorem named_start (htable : table.Keyed) (dirs : OrdSet Text) (writable : Bool)
    (rootFiles : List PackageFile) (cwd : Option Text) (stdin : Bytes) :
    (World.mk (Host.ofMounts table dirs writable rootFiles)
      (newRuntime (Host.ofMounts table dirs writable rootFiles) cwd stdin)).Named := by
  intro k r hk
  obtain ⟨hlt, hpath⟩ := htable k r hk
  have hextends := FileTable.extends_readOnlyPackageRootMount table.records rootFiles
  change ((readOnlyPackageRootMount table.records rootFiles).1.get r).path = some k
  rw [hextends.2 r hlt, hpath]

/-- Before the first call `/tmp` is empty. -/
theorem apart_start (htable : table.Keyed) (dirs : OrdSet Text) (writable : Bool)
    (rootFiles : List PackageFile) (cwd : Option Text) (stdin : Bytes) :
    (World.mk (Host.ofMounts table dirs writable rootFiles)
      (newRuntime (Host.ofMounts table dirs writable rootFiles) cwd stdin)).Apart := by
  have hextends := FileTable.extends_readOnlyPackageRootMount table.records rootFiles
  have hempty : ∀ r : ℕ, ¬Mount.Stores ⟨empty, empty.set [] ()⟩ r := by
    rintro r ⟨k, hk⟩
    cases hk
  refine ⟨fun r ⟨m, k, hk⟩ => ⟨?_, hempty r⟩, fun r ⟨k, hk⟩ => ⟨?_, hempty r⟩,
    fun r hr => absurd hr (hempty r), fun fd file r hfile => nomatch hfile⟩
  · change ((Heap.empty.alloc table.files).get m).get k = some r at hk
    rw [get_alloc] at hk
    split at hk
    · exact (htable k r hk).1.trans_le hextends.1
    · cases hk
  · exact (FileTable.keyed_putPackageFiles (FileTable.keyed_empty table.records) rootFiles k r hk).1

/-- A runtime with an empty `/tmp` and the descriptors of another one. -/
theorem Apart.of_emptyScratch {w : World} (hw : w.Apart) {runtime : Runtime}
    (hscratch : ∀ r, ¬runtime.scratch.Stores r) (hopen : runtime.openFiles = w.runtime.openFiles) :
    (World.mk w.host runtime).Apart :=
  ⟨fun r hr => ⟨(hw.workspace r hr).1, hscratch r⟩,
    fun r hr => ⟨(hw.packageRoot r hr).1, hscratch r⟩, fun r hr => absurd hr (hscratch r),
    fun fd file r hfile hr => ⟨(hw.openFile fd file r (by rwa [World.openFile, ← hopen]) hr).1,
      fun _ => hscratch r⟩⟩

end World

/-! ### The two invariants -/

namespace System

/-- The `/tmp` of every live runtime is apart. -/
def Apart (s : System) : Prop := ∀ r ∈ s.runtimes, (World.mk s.host r).Apart

variable {w w' : World}

/-- Counting references shows no other runtime an object. -/
theorem grows_of_sameButPipes (h : World.SameButPipes w.host w'.host) : World.Grows w w' := by
  refine ⟨(congrArg Heap.next h.records).ge, fun r hr => .inl ?_, h.packageRoot⟩
  rwa [Host.InWorkspace, h.fileMaps] at hr

variable {s : System} {snapshot : Option World.SnapshotTree} {files rootFiles : List PackageFile}
    {cwd : Option Text} {stdin : Bytes}

theorem apart_step (h : s.Apart) (e : Event) : (s.step e).Apart := by
  have hworld : s.world.Apart := h s.runtime List.mem_cons_self
  have hfork := grows_of_sameButPipes s.world.sameButPipes_forkChild
  refine forall_runtimes_step (P := World.Apart)
    (G := fun host => World.Grows s.world ⟨host, s.runtime⟩)
    h e (fun host hgrows r hr => World.Apart.of_grows (h r hr) hgrows) ?_
    (fun w hplains _ => ⟨hplains.apart hworld, hplains.grows.congr _ _⟩)
    (fun snapshot => ⟨World.apart_childSnapshot hworld snapshot,
      (s.world.grows_childSnapshot snapshot).congr _ _⟩)
    (fun host hhost => grows_of_sameButPipes hhost) ?_
  · rintro c rfl
    exact ⟨World.apart_call hworld c, (s.world.grows_call c).congr _ _⟩
  · -- the child starts with a new `/tmp`
    refine World.Apart.of_emptyScratch (World.Apart.of_grows (w := s.world) hworld hfork)
      (fun r hr => ?_) s.world.openFiles_forkChild
    obtain ⟨_, hk⟩ := hr
    cases hk

/-- In every state reached, `/tmp` shares no object with another mount. -/
theorem apart_of_reach (hrun : Reach step (boot snapshot files rootFiles cwd stdin) s) :
    s.Apart := by
  refine hrun.invariant (I := Apart) (fun r hr => ?_) fun t e ht _ => apart_step ht e
  obtain rfl := List.mem_singleton.1 hr
  obtain ⟨table, dirs, writable, htable, heq⟩ :=
    exists_ofMounts_createWasiWorkspaceMount snapshot files rootFiles
  change (World.mk (createWasiWorkspaceMount snapshot files rootFiles)
    (World.newRuntime (createWasiWorkspaceMount snapshot files rootFiles) cwd stdin)).Apart
  rw [heq]
  exact World.apart_start htable dirs writable rootFiles cwd stdin

/-- What holds along a run in which no waiting parent is left with old maps: the runtimes share
the maps of the workspace, and its objects carry their keys. -/
structure Coherent (s : System) : Prop where
  allocated : s.Allocated
  shared : s.Shared
  apart : s.Apart
  named : s.world.Named

theorem Coherent.sharesMaps (h : s.Coherent) : s.world.SharesMaps :=
  h.shared s.runtime List.mem_cons_self

/-- Other runtimes of a run see the objects that the running one sees. -/
theorem named_of_sameMaps (hw : w.Named) (hmaps : w'.host.fileMaps = w.host.fileMaps)
    (hrecords : w'.host.records = w.host.records) (hfiles : w'.runtime.files = w.runtime.files) :
    w'.Named := by
  have hmount : w'.workspaceMount.files = w.workspaceMount.files := by
    rw [World.workspaceMount, World.workspaceMount, hmaps, hfiles]
  exact hw.of_eq (fun k r hk => hmount ▸ hk) fun k r _ => by rw [hrecords]

theorem coherent_step (h : s.Coherent) {e : Event} (hok : s.SparesParent e) :
    (s.step e).Coherent := by
  refine ⟨allocated_step h.allocated e, (shared_step_iff h.allocated h.shared e).2 hok,
    apart_step h.apart e, ?_⟩
  have hworld : s.world.Apart := h.apart s.runtime List.mem_cons_self
  cases e with
  | call c => exact World.named_call h.named hworld c
  | childInput fd => exact (s.world.plains_processExecInputBytes fd).named h.named
  | childOutput fd bytes => exact (s.world.plains_writeBytesToFd fd bytes).named h.named
  | childSnapshot snapshot =>
    exact World.named_childSnapshot h.sharesMaps hworld h.named snapshot
  | fork =>
    simp only [step, fork]
    split
    · have hhost := s.world.sameButPipes_forkChild
      -- the child takes the map of the workspace record, which is the one its parent has
      exact named_of_sameMaps (w := s.world) h.named hhost.fileMaps hhost.records
        ((congrArg Workspace.files hhost.workspace).trans h.sharesMaps.1.symm)
    · exact h.named
  | exit =>
    simp only [step, exit]
    split
    next parent hparent =>
      have hhost := s.world.sameButPipes_closeAllOpenFiles
      exact named_of_sameMaps (w := s.world) h.named hhost.fileMaps hhost.records
        ((h.shared parent (by simp [runtimes, hparent])).1.trans h.sharesMaps.1.symm)
    · exact h.named

theorem coherent_boot (snapshot : Option World.SnapshotTree) (files rootFiles : List PackageFile)
    (cwd : Option Text) (stdin : Bytes) : (boot snapshot files rootFiles cwd stdin).Coherent := by
  refine ⟨allocated_boot .., shared_boot snapshot files rootFiles cwd stdin,
    apart_of_reach .start, ?_⟩
  obtain ⟨table, dirs, writable, htable, heq⟩ :=
    exists_ofMounts_createWasiWorkspaceMount snapshot files rootFiles
  change (World.mk (createWasiWorkspaceMount snapshot files rootFiles)
    (World.newRuntime (createWasiWorkspaceMount snapshot files rootFiles) cwd stdin)).Named
  rw [heq]
  exact World.named_start htable dirs writable rootFiles cwd stdin

/-- A run in which no child renames a workspace directory while its parent waits stays coherent. -/
theorem coherent_of_run (hrun : Run step SparesParent (boot snapshot files rootFiles cwd stdin) s) :
    s.Coherent :=
  hrun.invariant (coherent_boot snapshot files rootFiles cwd stdin)
    fun _ _ h hok => coherent_step h hok

end System

end WasmHost

import WasmHost.Wasi.Boot
import WasmHost.Wasi.ChildSnapshot

/-!
# One workspace for parent and child

A runtime keeps the addresses of the maps of the workspace next to the workspace record that it
shares with the other runtime of a fork. Every operation changes the maps in place, except the
rename of a workspace directory, which puts new ones in the record and in the runtime that makes
it. A parent that waits for its child is then left with the old maps.

* `System.shared_iff`: all live runtimes keep the maps of the workspace record throughout a run
  exactly when no child renames a directory of the workspace.
-/

namespace WasmHost

namespace World

/-- The workspace record and the runtime keep their maps, and no address is freed. -/
structure KeepsMaps (w w' : World) : Prop where
  files : w'.runtime.files = w.runtime.files
  dirs : w'.runtime.workspaceDirs = w.runtime.workspaceDirs
  workspaceFiles : w'.host.workspace.files = w.host.workspace.files
  workspaceDirs : w'.host.workspace.dirs = w.host.workspace.dirs
  nextFiles : w'.host.fileMaps.next = w.host.fileMaps.next
  nextDirs : w'.host.dirSets.next = w.host.dirSets.next

variable (w : World) {w' : World} {mount : VirtualMount} {e : Mount.Edit ℕ}

theorem KeepsMaps.refl : KeepsMaps w w := ⟨rfl, rfl, rfl, rfl, rfl, rfl⟩

theorem KeepsMaps.trans {w w'' : World} (h : KeepsMaps w w') (h' : KeepsMaps w' w'') :
    KeepsMaps w w'' :=
  ⟨h'.files.trans h.files, h'.dirs.trans h.dirs, h'.workspaceFiles.trans h.workspaceFiles,
    h'.workspaceDirs.trans h.workspaceDirs, h'.nextFiles.trans h.nextFiles,
    h'.nextDirs.trans h.nextDirs⟩

theorem Plain.keepsMaps {w : World} (h : Plain w w') : KeepsMaps w w' := by
  cases h with
  | quiet hq =>
    exact ⟨hq.runtimeFiles, hq.runtimeDirs, hq.workspaceFiles, hq.workspaceDirs,
      congrArg Heap.next hq.fileMaps, congrArg Heap.next hq.dirSets⟩
  | @truncate mount key record hget => cases mount <;> exact ⟨rfl, rfl, rfl, rfl, rfl, rfl⟩
  | @moved fd target file hfile htarget hne =>
    unfold moveDescriptor closeReplaced
    split <;> exact ⟨rfl, rfl, rfl, rfl, rfl, rfl⟩
  | duplicated | preopened =>
    unfold placeDuplicate closeReplaced
    split <;> exact ⟨rfl, rfl, rfl, rfl, rfl, rfl⟩
  | _ => exact ⟨rfl, rfl, rfl, rfl, rfl, rfl⟩

theorem Plains.keepsMaps {w : World} (h : Plains w w') : KeepsMaps w w' := by
  induction h with
  | refl => exact KeepsMaps.refl w
  | tail _ hstep ih => exact ih.trans hstep.keepsMaps

/-- The edit replaces the maps of the workspace. -/
def ReplacesMaps : VirtualMount → Mount.Edit ℕ → Prop
  | .workspace, .renameDir _ _ => True
  | _, _ => False

/-- Every other edit changes the maps in place. -/
theorem keepsMaps_perform (h : ¬ReplacesMaps mount e) : KeepsMaps w (w.perform mount e) := by
  cases mount <;> cases e <;> first
    | exact absurd trivial h
    | exact ⟨rfl, rfl, rfl, rfl, rfl, rfl⟩

/-- Everybody who looks at the workspace record or at the runtime sees new maps. -/
structure NewMaps (w w' : World) : Prop where
  files : w'.runtime.files = w.host.fileMaps.next
  dirs : w'.runtime.workspaceDirs = w.host.dirSets.next
  workspaceFiles : w'.host.workspace.files = w.host.fileMaps.next
  workspaceDirs : w'.host.workspace.dirs = w.host.dirSets.next
  nextFiles : w'.host.fileMaps.next = w.host.fileMaps.next + 1
  nextDirs : w'.host.dirSets.next = w.host.dirSets.next + 1

theorem newMaps_perform (h : ReplacesMaps mount e) : NewMaps w (w.perform mount e) := by
  cases mount with
  | workspace =>
    cases e with
    | renameDir => exact ⟨rfl, rfl, rfl, rfl, rfl, rfl⟩
    | _ => exact h.elim
  | scratch => exact h.elim

/-- A call keeps the maps, or it makes an edit that replaces them. -/
theorem call_maps (c : Call) :
    KeepsMaps w (w.call c) ∨
      ∃ mount e, w.Edits c mount e ∧ ReplacesMaps mount e ∧ NewMaps w (w.call c) := by
  rcases w.call_effects c with h | ⟨mount, e, he, h⟩
  · exact .inl h.keepsMaps
  · by_cases hnew : ReplacesMaps mount e
    · refine .inr ⟨mount, e, he, hnew, ?_⟩
      have hperform := w.newMaps_perform hnew
      have hkeeps := h.keepsMaps
      exact ⟨hkeeps.files.trans hperform.files, hkeeps.dirs.trans hperform.dirs,
        hkeeps.workspaceFiles.trans hperform.workspaceFiles,
        hkeeps.workspaceDirs.trans hperform.workspaceDirs,
        hkeeps.nextFiles.trans hperform.nextFiles, hkeeps.nextDirs.trans hperform.nextDirs⟩
    · exact .inl ((w.keepsMaps_perform hnew).trans h.keepsMaps)

/-- A call whose edit replaces the maps is a rename. -/
theorem editsEntry_of_replacesMaps {w : World} {c : Call} (he : w.Edits c mount e)
    (h : ReplacesMaps mount e) : EditsEntry c := by
  cases he with
  | renameDir => trivial
  | _ => cases mount <;> exact h.elim

/-- Importing a snapshot fills the maps in place. -/
theorem Imported.keepsMaps {w : World} (h : Imported w w') : KeepsMaps w w' :=
  ⟨congrArg Runtime.files h.runtime, congrArg Runtime.workspaceDirs h.runtime, h.workspaceFiles,
    h.workspaceDirs, h.nextFiles, h.nextDirs⟩

theorem keepsMaps_childSnapshot (snapshot : SnapshotTree) :
    KeepsMaps w (w.importWasiWorkspaceSnapshot snapshot).rebindOpenWorkspaceFiles := by
  refine childSnapshot_induction (P := KeepsMaps w) (fun w' h => h.keepsMaps) (fun w' path h => ?_)
    fun w' fd file old record writable offset _ _ h => ?_
  · exact h.trans ⟨rfl, rfl, rfl, rfl, rfl, rfl⟩
  · exact h.trans ⟨rfl, rfl, rfl, rfl, rfl, rfl⟩

end World

namespace System

/-- The tree that the export at the end of the run reads. -/
def workspaceTree (s : System) : Mount ℕ where
  files := s.host.fileMaps.get s.host.workspace.files
  dirs := s.host.dirSets.get s.host.workspace.dirs

/-- Every live runtime keeps the maps that the workspace record holds. -/
def Shared (s : System) : Prop :=
  ∀ r ∈ s.runtimes, r.files = s.host.workspace.files ∧ r.workspaceDirs = s.host.workspace.dirs

/-- Every live runtime sees the tree that is exported. -/
def SeesOneTree (s : System) : Prop :=
  ∀ r ∈ s.runtimes, (World.mk s.host r).workspaceMount = s.workspaceTree

variable {s : System} {w : World}

theorem Shared.seesOneTree (h : s.Shared) : s.SeesOneTree := by
  intro r hr
  obtain ⟨hfiles, hdirs⟩ := h r hr
  rw [workspaceTree, ← hfiles, ← hdirs]
  rfl

/-- No child renames a directory of the workspace while its parent waits. -/
def SparesParent (s : System) : Event → Prop
  | .call c => s.parent.isSome = true → ∀ source target,
      ¬s.world.Edits c .workspace (.renameDir source target)
  | _ => True

/-- The maps of the workspace record are allocated. -/
def Allocated (s : System) : Prop :=
  s.host.workspace.files < s.host.fileMaps.next ∧ s.host.workspace.dirs < s.host.dirSets.next

theorem shared_withWorld (h : s.Shared) (hw : World.KeepsMaps s.world w) :
    (s.withWorld w).Shared := by
  intro r hr
  change r.files = w.host.workspace.files ∧ r.workspaceDirs = w.host.workspace.dirs
  rw [hw.workspaceFiles, hw.workspaceDirs]
  rcases List.mem_cons.1 hr with rfl | hparent
  · obtain ⟨hfiles, hdirs⟩ := h s.runtime List.mem_cons_self
    exact ⟨hw.files.trans hfiles, hw.dirs.trans hdirs⟩
  · exact h r (List.mem_cons_of_mem _ hparent)

theorem allocated_withWorld (h : s.Allocated) (hw : World.KeepsMaps s.world w) :
    (s.withWorld w).Allocated := by
  change w.host.workspace.files < w.host.fileMaps.next ∧ w.host.workspace.dirs < w.host.dirSets.next
  rw [hw.workspaceFiles, hw.workspaceDirs, hw.nextFiles, hw.nextDirs]
  exact h

theorem allocated_step (h : s.Allocated) (e : Event) : (s.step e).Allocated := by
  cases e with
  | call c =>
    rcases s.world.call_maps c with hkeeps | ⟨-, -, -, -, hnew⟩
    · exact allocated_withWorld h hkeeps
    · change (s.world.call c).host.workspace.files < _ ∧ (s.world.call c).host.workspace.dirs < _
      rw [hnew.workspaceFiles, hnew.workspaceDirs]
      exact ⟨(Nat.lt_succ_self _).trans_eq hnew.nextFiles.symm,
        (Nat.lt_succ_self _).trans_eq hnew.nextDirs.symm⟩
  | childInput fd => exact allocated_withWorld h (s.world.plains_processExecInputBytes fd).keepsMaps
  | childOutput fd bytes =>
    exact allocated_withWorld h (s.world.plains_writeBytesToFd fd bytes).keepsMaps
  | childSnapshot snapshot => exact allocated_withWorld h (s.world.keepsMaps_childSnapshot snapshot)
  | fork =>
    simp only [step, fork]
    split
    · have hhost := s.world.sameButPipes_forkChild
      change s.world.forkChild.host.workspace.files < s.world.forkChild.host.fileMaps.next ∧
        s.world.forkChild.host.workspace.dirs < s.world.forkChild.host.dirSets.next
      rw [hhost]
      exact h
    · exact h
  | exit =>
    simp only [step, exit]
    split
    next parent hparent =>
      have hhost := s.world.sameButPipes_closeAllOpenFiles
      rw [hhost]
      exact h
    · exact h

/-- An event keeps the maps shared exactly when no waiting parent is left behind. -/
theorem shared_step_iff (halloc : s.Allocated) (h : s.Shared) (e : Event) :
    (s.step e).Shared ↔ s.SparesParent e := by
  cases e with
  | call c =>
    constructor
    · intro hafter hparent source target he
      obtain ⟨parent, hparent⟩ := Option.isSome_iff_exists.1 hparent
      have hmem : parent ∈ s.runtimes := by simp [runtimes, hparent]
      have hreplaces : World.ReplacesMaps .workspace (.renameDir source target) := trivial
      have hnew : World.NewMaps s.world (s.world.call c) := by
        have hentry := World.editsEntry_of_replacesMaps he hreplaces
        rw [World.call, s.world.callResult_of_edits hentry he]
        exact s.world.newMaps_perform hreplaces
      -- the parent still has the old map, which is not the new one
      have hold := (h parent hmem).1
      have hstale := (hafter parent (by
        change parent ∈ _ :: s.parent.toList
        simp [hparent])).1
      change parent.files = (s.world.call c).host.workspace.files at hstale
      rw [hold, hnew.workspaceFiles] at hstale
      exact absurd halloc.1 (hstale ▸ lt_irrefl _)
    · intro hspares
      rcases s.world.call_maps c with hkeeps | ⟨mount, e, he, hreplaces, hnew⟩
      · exact shared_withWorld h hkeeps
      · have hnone : s.parent = none := by
          by_contra hsome
          cases he with
          | renameDir hkeys hallow =>
            cases mount with
            | workspace =>
              exact hspares (Option.isSome_iff_ne_none.2 hsome) _ _ (.renameDir hkeys hallow)
            | scratch => exact hreplaces
          | _ => cases mount <;> exact hreplaces
        intro r hr
        obtain rfl : r = (s.world.call c).runtime := by
          have hr' : r ∈ (s.world.call c).runtime :: s.parent.toList := hr
          simpa [hnone] using hr'
        exact ⟨hnew.files.trans hnew.workspaceFiles.symm, hnew.dirs.trans hnew.workspaceDirs.symm⟩
  | _ =>
    have hwith : ∀ {w : World}, World.KeepsMaps s.world w →
        (w.runtime.files = w.host.workspace.files ∧
        w.runtime.workspaceDirs = w.host.workspace.dirs) ∧
          w.host.workspace.files = s.host.workspace.files ∧
            w.host.workspace.dirs = s.host.workspace.dirs := fun hw =>
      ⟨shared_withWorld h hw _ List.mem_cons_self, hw.workspaceFiles, hw.workspaceDirs⟩
    refine iff_of_true ?_ trivial
    refine forall_runtimes_step (P := fun w => w.runtime.files = w.host.workspace.files ∧
        w.runtime.workspaceDirs = w.host.workspace.dirs)
      (G := fun host => host.workspace.files = s.host.workspace.files ∧
        host.workspace.dirs = s.host.workspace.dirs) h _ (fun host hhost r hr => ?_)
      (fun c hc => by cases hc) (fun w hplains _ => hwith hplains.keepsMaps)
      (fun snapshot => hwith (s.world.keepsMaps_childSnapshot snapshot)) (fun host hhost => ?_)
      ⟨rfl, rfl⟩
    · rw [hhost.1, hhost.2]
      exact h r hr
    · rw [hhost]
      exact ⟨rfl, rfl⟩

theorem allocated_boot (snapshot : Option World.SnapshotTree) (files rootFiles : List PackageFile)
    (cwd : Option Text) (stdin : Bytes) : (boot snapshot files rootFiles cwd stdin).Allocated := by
  cases snapshot <;> exact ⟨Nat.zero_lt_one, Nat.zero_lt_one⟩

theorem shared_boot (snapshot : Option World.SnapshotTree) (files rootFiles : List PackageFile)
    (cwd : Option Text) (stdin : Bytes) : (boot snapshot files rootFiles cwd stdin).Shared := by
  intro r hr
  obtain rfl : r = World.newRuntime (createWasiWorkspaceMount snapshot files rootFiles) cwd stdin :=
    by simpa [runtimes, boot, start] using hr
  exact ⟨rfl, rfl⟩

/-- Along every run, all live runtimes keep the maps of the workspace record exactly when no child
renames a workspace directory while its parent waits; and then all of them see the tree that is
exported at the end. -/
theorem shared_iff (snapshot : Option World.SnapshotTree) (files rootFiles : List PackageFile)
    (cwd : Option Text) (stdin : Bytes) (events : List Event) :
    (Always step Shared (boot snapshot files rootFiles cwd stdin) events ↔
      Along step SparesParent (boot snapshot files rootFiles cwd stdin) events) ∧
    (Along step SparesParent (boot snapshot files rootFiles cwd stdin) events →
      Always step SeesOneTree (boot snapshot files rootFiles cwd stdin) events) := by
  have hiff := always_iff (I := Allocated) (p := Shared) (q := SparesParent)
    (fun _ e h => allocated_step h e) (fun _ e h h' => shared_step_iff h h' e) (allocated_boot ..)
    (shared_boot snapshot files rootFiles cwd stdin) events
  exact ⟨hiff, fun h => (hiff.2 h).mono fun _ hs => hs.seesOneTree⟩

/-- A child renames a directory and ends, and its parent makes another one. -/
def orphanParent : List Event :=
  [.fork, .call (.pathRename 3 "d".toList 3 "e".toList), .exit,
    .call (.pathCreateDirectory 3 "x".toList)]

/-- A run on a workspace with one directory in which that happens. -/
def orphaned : System :=
  runAll step (boot (some ⟨["d".toList], []⟩) [] [] none []) orphanParent

/-- The parent still sees the directory under its old name, and what it makes is not exported. -/
theorem not_shared_orphaned :
    Reach step (boot (some ⟨["d".toList], []⟩) [] [] none []) orphaned ∧ ¬orphaned.Shared ∧
      orphaned.world.workspaceMount.dirs.keys = [[], "d".toList, "x".toList] ∧
      orphaned.workspaceTree.dirs.keys = [[], "e".toList] := by
  refine ⟨reach_runAll _ _, fun h => ?_, by decide, by decide⟩
  exact absurd (h orphaned.runtime List.mem_cons_self).1 (by decide)

end System

end WasmHost

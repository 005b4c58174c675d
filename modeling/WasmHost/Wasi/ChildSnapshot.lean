import WasmHost.Wasi.Effects

/-!
# The workspace that a child command returns

What importing a snapshot into the shared workspace and binding the open descriptors again can
change. The import only touches the workspace maps and allocates file objects (`Imported`);
the second step goes through the descriptors of the table one by one, each of which is still as
it was before the first (`World.rebind_induction`).
-/

namespace WasmHost

open List

namespace World

/-- Only records, the workspace maps in place and the dirty mark have changed. -/
structure Imported (w w' : World) : Prop where
  runtime : w'.runtime = w.runtime
  pipes : w'.host.pipes = w.host.pipes
  packageRoot : w'.host.packageRoot = w.host.packageRoot
  workspaceFiles : w'.host.workspace.files = w.host.workspace.files
  workspaceDirs : w'.host.workspace.dirs = w.host.workspace.dirs
  writable : w'.host.workspace.writable = w.host.workspace.writable
  nextFiles : w'.host.fileMaps.next = w.host.fileMaps.next
  nextDirs : w'.host.dirSets.next = w.host.dirSets.next
  records : w.host.records.next ≤ w'.host.records.next

variable (w : World)

theorem Imported.refl : Imported w w :=
  ⟨rfl, rfl, rfl, rfl, rfl, rfl, rfl, rfl, le_refl _⟩

theorem Imported.trans {w w' w'' : World} (h : Imported w w') (h' : Imported w' w'') :
    Imported w w'' :=
  ⟨h'.runtime.trans h.runtime, h'.pipes.trans h.pipes, h'.packageRoot.trans h.packageRoot,
    h'.workspaceFiles.trans h.workspaceFiles, h'.workspaceDirs.trans h.workspaceDirs,
    h'.writable.trans h.writable, h'.nextFiles.trans h.nextFiles, h'.nextDirs.trans h.nextDirs,
    h.records.trans h'.records⟩

theorem imported_putSnapshotFile (path : Text) (record : FileRecord) :
    Imported w (w.putSnapshotFile path record) :=
  ⟨rfl, rfl, rfl, rfl, rfl, rfl, rfl, rfl, Nat.le_succ _⟩

theorem imported_putFallbackFile (file : Text × Bytes) : Imported w (w.putFallbackFile file) := by
  unfold putFallbackFile
  split
  · exact Imported.refl w
  · exact imported_putSnapshotFile ..

theorem imported_foldl {α : Type} (f : World → α → World) (hf : ∀ w a, Imported w (f w a))
    (items : List α) (w : World) : Imported w (items.foldl f w) :=
  foldl_rel Imported.refl (fun _ _ _ h h' => h.trans h') hf items w

theorem imported_importWasiWorkspaceSnapshot (snapshot : SnapshotTree) :
    Imported w (w.importWasiWorkspaceSnapshot snapshot) := by
  unfold importWasiWorkspaceSnapshot
  split
  · exact Imported.refl w
  have hreset : Imported w (w.resetWorkspace snapshot.directories) :=
    ⟨rfl, rfl, rfl, rfl, rfl, rfl, rfl, rfl, le_refl _⟩
  refine (hreset.trans (imported_foldl _ (fun w' file => imported_putSnapshotFile ..) _ _)).trans
    ((imported_foldl _ imported_putFallbackFile _ _).trans
      ⟨rfl, rfl, rfl, rfl, rfl, rfl, rfl, rfl, le_refl _⟩)

/-- Binding a descriptor again does nothing, or gives it the file that its path names, which may
be a new one. -/
theorem rebindOpenFile_cases (fd : Int) (file : OpenFile) :
    w.rebindOpenFile fd file = w ∨
      ∃ old writable offset path record, file.kind = .file old writable offset ∧
        file.path = some path ∧ file.mount = some .workspace ∧ path ≠ [] ∧
        ((w.workspaceMount.files.get path = some record ∧
            w.rebindOpenFile fd file =
              w.putOpenFile fd { file with kind := .file record writable offset }) ∨
          (w.workspaceMount.files.get path = none ∧ writable = true ∧
            record = w.host.records.next ∧
            w.rebindOpenFile fd file =
              (w.createFile .workspace path).putOpenFile fd
                { file with kind := .file record writable offset })) := by
  unfold rebindOpenFile
  split
  next old writable offset path hkind hpath =>
    split
    next hmount =>
      split
      next record hget =>
        exact .inr ⟨old, writable, offset, path, record, hkind, hpath, hmount.1, hmount.2,
          .inl ⟨hget, rfl⟩⟩
      next hget =>
        split
        next hwritable =>
          exact .inr ⟨old, writable, offset, path, _, hkind, hpath, hmount.1, hmount.2,
            .inr ⟨hget, hwritable, rfl, rfl⟩⟩
        · exact .inl rfl
    · exact .inl rfl
  · exact .inl rfl

/-- Binding a descriptor again does not touch other descriptors. -/
theorem openFile_rebindOpenFile_ne {fd fd' : Int} (file : OpenFile) (hne : fd' ≠ fd) :
    (w.rebindOpenFile fd file).openFile fd' = w.openFile fd' := by
  rcases w.rebindOpenFile_cases fd file with
    h | ⟨_, _, _, _, _, _, _, _, _, ⟨_, h⟩ | ⟨_, _, _, h⟩⟩
  · rw [h]
  · rw [h]
    exact OrdMap.get_set_ne _ _ hne
  · rw [h]
    exact OrdMap.get_set_ne _ _ hne

/-- The loop over the descriptors: what each step keeps, provided that its descriptor is still the
one of the table, the whole loop keeps; and what a step gives its own descriptor, it has at the end
if the steps of the others do not take it away. -/
theorem rebind_loop {P : World → Prop} {Q : Int → OpenFile → World → Prop}
    (hwritable : w.writable = true)
    (hstep : ∀ w' fd file, w.openFile fd = some file → w'.openFile fd = some file → P w' →
      P (w'.rebindOpenFile fd file) ∧ Q fd file (w'.rebindOpenFile fd file))
    (hkeep : ∀ w' fd file fd' file', fd ≠ fd' → w'.openFile fd' = some file' → Q fd file w' →
      Q fd file (w'.rebindOpenFile fd' file'))
    (h : P w) :
    P w.rebindOpenWorkspaceFiles ∧
      ∀ fd file, w.openFile fd = some file → Q fd file w.rebindOpenWorkspaceFiles := by
  have hloop : ∀ (entries : List (Int × OpenFile)) (w' : World), (entries.map Prod.fst).Nodup →
      (∀ e ∈ entries, w.openFile e.1 = some e.2 ∧ w'.openFile e.1 = some e.2) → P w' →
      P (entries.foldl (fun w' e => w'.rebindOpenFile e.1 e.2) w') ∧
        (∀ e ∈ entries, Q e.1 e.2 (entries.foldl (fun w' e => w'.rebindOpenFile e.1 e.2) w')) ∧
        ∀ fd file, fd ∉ entries.map Prod.fst → Q fd file w' →
          Q fd file (entries.foldl (fun w' e => w'.rebindOpenFile e.1 e.2) w') := by
    intro entries
    induction entries with
    | nil => exact fun w' _ _ h => ⟨h, fun _ he => absurd he not_mem_nil, fun _ _ _ hq => hq⟩
    | cons e entries ih =>
      intro w' hnodup hopen h
      rw [map_cons, nodup_cons] at hnodup
      obtain ⟨hold, hhead⟩ := hopen e mem_cons_self
      obtain ⟨hp, hq⟩ := hstep w' e.1 e.2 hold hhead h
      obtain ⟨hp, hall, hrest⟩ := ih _ hnodup.2 (fun e' he' => by
        have hne : e'.1 ≠ e.1 := fun heq => hnodup.1 (mem_map.2 ⟨e', he', heq⟩)
        rw [w'.openFile_rebindOpenFile_ne e.2 hne]
        exact hopen e' (mem_cons_of_mem _ he')) hp
      refine ⟨hp, fun e' he' => ?_, fun fd file hfd hfq => ?_⟩
      · rcases mem_cons.1 he' with rfl | htail
        · exact hrest e'.1 e'.2 hnodup.1 hq
        · exact hall e' htail
      · rw [map_cons, mem_cons, not_or] at hfd
        exact hrest fd file hfd.2 (hkeep w' fd file e.1 e.2 hfd.1 hhead hfq)
  have hentries : ∀ fd file, w.openFile fd = some file ↔ (fd, file) ∈ w.runtime.openFiles.entries :=
    fun fd file => (w.runtime.openFiles.mem_entries fd file).symm
  obtain ⟨hp, hall, -⟩ := hloop _ w w.runtime.openFiles.nodup
    (fun e he => ⟨(hentries e.1 e.2).2 he, (hentries e.1 e.2).2 he⟩) h
  rw [rebindOpenWorkspaceFiles, if_neg (by simp [hwritable])]
  exact ⟨hp, fun fd file hfile => hall (fd, file) ((hentries fd file).1 hfile)⟩

/-- What each step of the loop keeps, the whole loop keeps. -/
theorem rebind_induction {P : World → Prop}
    (hstep : ∀ w' fd file, w'.openFile fd = some file → P w' → P (w'.rebindOpenFile fd file))
    (h : P w) : P w.rebindOpenWorkspaceFiles := by
  by_cases hwritable : w.writable = true
  · exact (w.rebind_loop (Q := fun _ _ _ => True) hwritable
      (fun w' fd file _ hfile hp => ⟨hstep w' fd file hfile hp, trivial⟩)
      (fun _ _ _ _ _ _ _ _ => trivial) h).1
  · rwa [rebindOpenWorkspaceFiles, if_pos (by simpa using hwritable)]

/-- What the import keeps, and with it making a file of the workspace and putting a file behind the
descriptor of another one, a child command that returns a workspace keeps. -/
theorem childSnapshot_induction {P : World → Prop} {w : World} {snapshot : SnapshotTree}
    (himported : ∀ w', Imported w w' → P w')
    (hcreate : ∀ w' path, P w' → P (w'.createFile .workspace path))
    (hput : ∀ w' fd file old record writable offset, w'.openFile fd = some file →
      file.kind = .file old writable offset → P w' →
      P (w'.putOpenFile fd { file with kind := .file record writable offset })) :
    P (w.importWasiWorkspaceSnapshot snapshot).rebindOpenWorkspaceFiles := by
  refine rebind_induction _ (fun w' fd file hfile h => ?_)
    (himported _ (w.imported_importWasiWorkspaceSnapshot snapshot))
  rcases w'.rebindOpenFile_cases fd file with
    heq | ⟨old, writable, offset, path, record, hkind, -, -, -, ⟨-, heq⟩ | ⟨-, -, -, heq⟩⟩
  · rwa [heq]
  · rw [heq]
    exact hput w' fd file old record writable offset hfile hkind h
  · rw [heq]
    exact hput _ fd file old record writable offset hfile hkind (hcreate w' path h)

/-! ### Input and output of child commands -/

theorem runtime_processExecInputBytes (fd : Int) :
    (w.processExecInputBytes fd).runtime = w.runtime := by
  unfold processExecInputBytes
  repeat' split
  all_goals rfl

theorem runtime_markOpenFileDirty (file : OpenFile) (record : ℕ) :
    (w.markOpenFileDirty file record).runtime = w.runtime := by
  unfold markOpenFileDirty
  split <;> rfl

theorem runtime_writeOpenFile (file : OpenFile) (record offset : ℕ) (chunks : List Bytes) :
    (w.writeOpenFile file record offset chunks).runtime = w.runtime := by
  have hat : ∀ start, (w.writeOpenFileAt file record chunks start).1.runtime = w.runtime := by
    intro start
    unfold writeOpenFileAt
    dsimp only
    split
    · exact runtime_markOpenFileDirty ..
    · rfl
  exact hat _

theorem runtime_writeBytesToFd (fd : Int) (bytes : Bytes) :
    (w.writeBytesToFd fd bytes).runtime = w.runtime := by
  have hpipe : ∀ direction pipe, (w.writeBytesToPipe direction pipe bytes).runtime = w.runtime := by
    intro direction pipe
    unfold writeBytesToPipe
    split <;> rfl
  unfold writeBytesToFd
  repeat' split
  all_goals first
    | rfl
    | exact hpipe _ _
    | exact w.runtime_writeOpenFile ..

end World

/-! ### Events -/

namespace System

variable {s : System}

/-- What the running runtime goes on to have, and no live runtime loses by what happens to the
shared objects, every live runtime has after an event. -/
theorem forall_runtimes_step {P : World → Prop} {G : Host → Prop}
    (h : ∀ r ∈ s.runtimes, P ⟨s.host, r⟩) (e : Event)
    (hother : ∀ host, G host → ∀ r ∈ s.runtimes, P ⟨host, r⟩)
    (hcall : ∀ c, e = .call c → P (s.world.call c) ∧ G (s.world.call c).host)
    (hchild : ∀ w, World.Plains s.world w → w.runtime = s.runtime → P w ∧ G w.host)
    (hsnapshot : ∀ snapshot,
      P (s.world.importWasiWorkspaceSnapshot snapshot).rebindOpenWorkspaceFiles ∧
        G (s.world.importWasiWorkspaceSnapshot snapshot).rebindOpenWorkspaceFiles.host)
    (hpipes : ∀ host, World.SameButPipes s.host host → G host)
    (hfork : P s.world.forkChild) :
    ∀ r ∈ (s.step e).runtimes, P ⟨(s.step e).host, r⟩ := by
  have hwith : ∀ w, P w ∧ G w.host → ∀ r ∈ (s.withWorld w).runtimes, P ⟨w.host, r⟩ := by
    rintro w ⟨hw, hhost⟩ r hr
    rcases mem_cons.1 hr with rfl | hparent
    · exact hw
    · exact hother _ hhost r (mem_cons_of_mem _ hparent)
  cases e with
  | call c => exact hwith _ (hcall c rfl)
  | childInput fd =>
    exact hwith _ (hchild _ (s.world.plains_processExecInputBytes fd)
      (s.world.runtime_processExecInputBytes fd))
  | childOutput fd bytes =>
    exact hwith _ (hchild _ (s.world.plains_writeBytesToFd fd bytes)
      (s.world.runtime_writeBytesToFd fd bytes))
  | childSnapshot snapshot => exact hwith _ (hsnapshot snapshot)
  | fork =>
    simp only [step, fork]
    split
    · intro r hr
      rcases mem_cons.1 hr with rfl | hparent
      · exact hfork
      · obtain rfl : r = s.runtime := by simpa using hparent
        exact hother _ (hpipes _ s.world.sameButPipes_forkChild) _ mem_cons_self
    · exact h
  | exit =>
    simp only [step, exit]
    split
    next parent hparent =>
      intro r hr
      obtain rfl : r = parent := by simpa [runtimes] using hr
      exact hother _ (hpipes _ s.world.sameButPipes_closeAllOpenFiles) r
        (by simp [runtimes, hparent])
    · exact h

end System

end WasmHost

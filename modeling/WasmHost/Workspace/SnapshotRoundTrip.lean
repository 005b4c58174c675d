import WasmHost.Workspace.TreeInvariant

/-!
# Snapshots that are imported again

`exportSnapshot` sorts its entries and spells their paths out; `importSnapshot` reads the paths
again. The bytes, the times and the order come back as they were. A key comes back unless white
space at its end is taken for the white space around the path.

* `Store.restores_iff_unpadded`: a tree comes back exactly when none of its keys ends in such a
  character.
-/

namespace List

open List

variable {α : Type} {le : α → α → Bool}

/-- The elements in front of one that is sorted in first are those it is not in front of. -/
theorem eq_filter_of_mergeSort_cons {l l₁ l₂ : List α} {a : α}
    (hsorted : (l₁ ++ a :: l₂).Pairwise fun x y => le x y = true)
    (hperm : l.mergeSort le = l₁ ++ l₂) (hfront : ∀ b ∈ l₁, !le a b) :
    l₁ = (l.mergeSort le).filter fun b => !le a b := by
  have hbehind : ∀ b ∈ l₂, (!le a b) = false := fun b hb => by
    rw [(pairwise_cons.1 (pairwise_append.1 hsorted).2.1).1 b hb]
    rfl
  rw [hperm, filter_append, filter_eq_self.2 hfront,
    filter_eq_nil_iff.2 fun b hb => by simp [hbehind b hb], append_nil]

/-- A sort that is stable sorts an element in alike in front of a list and of the sorted list. -/
theorem mergeSort_cons_mergeSort (htrans : ∀ a b c, le a b = true → le b c = true → le a c = true)
    (htotal : ∀ a b, (le a b || le b a) = true) (a : α) (l : List α) :
    (a :: l.mergeSort le).mergeSort le = (a :: l).mergeSort le := by
  have hidem : (l.mergeSort le).mergeSort le = l.mergeSort le :=
    mergeSort_of_pairwise (pairwise_mergeSort htrans htotal l)
  obtain ⟨l₁, l₂, heq, hl, hfront⟩ := mergeSort_cons htrans htotal a l
  obtain ⟨l₁', l₂', heq', hl', hfront'⟩ := mergeSort_cons htrans htotal a (l.mergeSort le)
  have hsorted := pairwise_mergeSort htrans htotal (a :: l)
  have hsorted' := pairwise_mergeSort htrans htotal (a :: l.mergeSort le)
  rw [heq] at hsorted
  rw [heq'] at hsorted'
  have h₁ := eq_filter_of_mergeSort_cons hsorted hl hfront
  have h₁' := eq_filter_of_mergeSort_cons hsorted' hl' hfront'
  rw [hidem] at h₁' hl'
  obtain rfl : l₁ = l₁' := h₁.trans h₁'.symm
  obtain rfl : l₂ = l₂' := append_cancel_left (hl.symm.trans hl')
  rw [heq, heq']

end List

namespace WasmHost

open OrdMap

namespace Store

/-! ### The root in front -/

/-- The root is the oldest directory. -/
def RootFirst (s : Store) : Prop := s.directories.keys.head? = some []

variable {s copy : Store} {engine : Base64Engine} {source target : Text}
    {snapshot : Option (Option SnapshotObject)}

theorem RootFirst.withDirectories (h : s.RootFirst) (keys : List Text) (times : ℕ → ℕ) :
    (s.withDirectories keys times).RootFirst :=
  head?_keys_setAll h _

theorem rootFirst_empty (now : ℕ) : (empty now).RootFirst := rfl

/-- What a filter keeps in front. -/
theorem RootFirst.deleteDirectoryTree (h : s.RootFirst) {path : Text} (hpath : path ≠ []) :
    (s.deleteDirectoryTree path).RootFirst := by
  have hkept : (!([] = path || isChildPath path [])) = true := by
    have hbelow : ¬SepPath.Below '/' path [] := fun hbelow =>
      absurd hbelow.length_lt (Nat.not_lt_zero _)
    simp [isChildPath, hpath, hpath.symm, hbelow]
  obtain ⟨rest, hkeys⟩ := List.head?_eq_some_iff.1 h
  rw [RootFirst, Store.deleteDirectoryTree, keys_filterKeys, hkeys, List.filter_cons, if_pos hkept]
  rfl

theorem RootFirst.moveDirectory (h : s.RootFirst) (hsource : source ≠ []) (now : ℕ)
    (target : Text) :
    (s.moveDirectory now source target).RootFirst := by
  have hat : ¬SepPath.AtOrBelow '/' source [] := by
    rintro (heq | hbelow)
    · exact hsource heq.symm
    · exact absurd hbelow.length_lt (Nat.not_lt_zero _)
  unfold RootFirst at h ⊢
  unfold Store.moveDirectory rekey ofList
  cases hentries : s.directories.entries with
  | nil =>
    rw [keys, hentries] at h
    cases h
  | cons e rest =>
    rw [keys, hentries] at h
    obtain hkey : e.1 = [] := Option.some.inj h
    rw [List.map_cons, setAll_cons]
    refine head?_keys_setAll ?_ _
    rw [keys_set, hkey, SepPath.move_of_not_atOrBelow target hat]
    rfl

variable {clock : Clock} {op : StoreOp} {s' fresh : Store} {time : ℕ} {k : Text}

theorem RootFirst.accepts (h : s.RootFirst) (haccepts : s.Accepts engine clock op s') :
    s'.RootFirst := by
  cases haccepts with
  | writeFile | deleteFile | rootDirectory => exact h
  | createDirectory => exact head?_keys_set h _ _
  | ensureDirectory => exact h.withDirectories _ _
  | deleteDirectory hkey hne => exact h.deleteDirectoryTree hne
  | renameFile => exact h
  | renameDirectory hmovable hfile hdir hinside htimes hmoved =>
    rw [RootFirst, hmoved.keys]
    exact h.moveDirectory hmovable.source_ne 0 _
  | importSnapshot => exact head?_keys_setAll rfl _

theorem RootFirst.rejects (h : s.RootFirst) (hrejects : s.Rejects clock op s') : s'.RootFirst := by
  cases hrejects with
  | unchanged | renameFile => exact h
  | ensureDirectory => exact h.withDirectories _ _

theorem rootFirst_of_newStore (h : newStore engine clock snapshot = .ok s) : s.RootFirst := by
  obtain ⟨now, hnow, h⟩ := Except.bind_eq_ok_iff.1 h
  cases snapshot with
  | none => exact Except.ok.inj h ▸ rootFirst_empty now
  | some snapshot =>
    dsimp only at h
    split at h
    next r hload =>
      obtain rfl := Except.ok.inj h
      exact (rootFirst_empty now).accepts ((valid_empty now).accepts_of_callOp
        (o := ⟨clock.rest, .importSnapshot snapshot⟩) hload)
    · cases h

theorem rootFirst_of_reach {start : Store} (hstart : newStore engine clock snapshot = .ok start)
    (hreach : Reach (stepOp engine) start s) : s.RootFirst := by
  have hboth : s.Sound ∧ s.RootFirst := by
    refine hreach.invariant (I := fun t => t.Sound ∧ t.RootFirst)
      ⟨sound_newStore hstart, rootFirst_of_newStore hstart⟩ fun t o ht _ => ⟨ht.1.stepOp o, ?_⟩
    unfold stepOp
    cases hcall : t.callOp engine o with
    | mk result r =>
      cases result with
      | ok => exact ht.2.accepts (ht.1.toValid.accepts_of_callOp hcall)
      | error => exact ht.2.rejects (ht.1.toValid.rejects_of_callOp hcall)
  exact hboth.2

/-! ### Entries in the order of an export -/

variable {localeLe : Text → Text → Bool}

/-- The directories with their keys, in the order of the snapshot. -/
def sortedDirectories (localeLe : Text → Text → Bool) (s : Store) : List (Text × StoreDirectory) :=
  s.directories.entries.mergeSort fun e e' => localeLe e.2.path e'.2.path

/-- The files with their keys, in the order of the snapshot. -/
def sortedFiles (localeLe : Text → Text → Bool) (s : Store) : List (Text × StoreFile) :=
  s.files.entries.mergeSort fun e e' => localeLe e.2.path e'.2.path

def exportedDirectory (e : Text × StoreDirectory) : SnapshotDirectoryEntry :=
  ⟨some e.2.mtimeMs, e.2.path⟩

/-- A file as it is exported. -/
def exportedFileObject (e : Text × StoreFile) : SnapshotFileObject :=
  ⟨StoreMethod.bytesToBase64 e.2.content, some e.2.mtimeMs, e.2.path, e.2.content.length⟩

/-- An export is a sorted list of the entries, without their keys. -/
theorem exportSnapshot_eq (localeLe : Text → Text → Bool) (s : Store) :
    StoreMethod.exportSnapshot localeLe s =
      ⟨(s.sortedDirectories localeLe).map exportedDirectory,
        (s.sortedFiles localeLe).map exportedFileObject, workspacePreopenPath, 1⟩ := by
  have hdirectories : (s.sortedDirectories localeLe).map exportedDirectory =
      (s.directories.values.map fun record =>
        (⟨some record.mtimeMs, record.path⟩ : SnapshotDirectoryEntry)).mergeSort
          fun left right => localeLe left.path right.path := by
    rw [values, List.map_map]
    exact List.map_mergeSort fun _ _ _ _ => rfl
  have hfiles : (s.sortedFiles localeLe).map exportedFileObject =
      (s.files.values.map fun record =>
        (⟨StoreMethod.bytesToBase64 record.content, some record.mtimeMs, record.path,
          record.content.length⟩ : SnapshotFileObject)).mergeSort
            fun left right => localeLe left.path right.path := by
    rw [values, List.map_map]
    exact List.map_mergeSort fun _ _ _ _ => rfl
  rw [hdirectories, hfiles]
  rfl

theorem base64ToBytes_bytesToBase64 (engine : Base64Engine) (bytes : Bytes) :
    StoreMethod.base64ToBytes engine (StoreMethod.bytesToBase64 bytes) = .ok bytes := by
  cases engine with
  | buffer => rw [StoreMethod.base64ToBytes, StoreMethod.bytesToBase64, Base64.lenientDecode_encode]
  | window =>
    rw [StoreMethod.base64ToBytes, StoreMethod.bytesToBase64, Base64.forgivingDecode_encode]

/-- `Number.isSafeInteger` holds of the times of a store. -/
theorem nonNegativeTime_of_lt (h : time < 2 ^ 53) :
    nonNegativeTime (some (time : Int)) = .ok time := by
  have hbounds : 0 ≤ (time : Int) ∧ (time : Int) < 2 ^ 53 := by omega
  unfold nonNegativeTime
  dsimp only
  rw [if_pos hbounds, Int.toNat_natCast]

section

variable (hs : s.Sound)
include hs

theorem Sound.loadDirectory_exported {e : Text × StoreDirectory} (he : e ∈ s.directories.entries)
    (hstable : StoreStable e.1) : loadDirectory (exportedDirectory e) = .ok e := by
  have hget := (s.directories.mem_entries e.1 e.2).1 he
  have hpath := hs.directoryPath _ _ hget
  refine loadDirectory_eq_ok_iff.2 ⟨?_, nonNegativeTime_of_lt (hs.directory _ _ hget).2, hpath⟩
  rw [exportedDirectory, hpath]
  exact hstable

theorem Sound.loadFileObject_exported {e : Text × StoreFile} (he : e ∈ s.files.entries)
    (hstable : StoreStable e.1) :
    StoreMethod.loadFileObject engine (exportedFileObject e) = .ok e := by
  have hget := (s.files.mem_entries e.1 e.2).1 he
  have hpath := hs.filePath _ _ hget
  have hne : e.1 ≠ [] := by
    intro hnil
    have hroot := hs.disjoint e.1 (has_of_get hget)
    rw [hnil, hs.root] at hroot
    cases hroot
  refine loadFileObject_eq_ok_iff.2 ⟨?_, hne, base64ToBytes_bytesToBase64 _ _,
    nonNegativeTime_of_lt (hs.file _ _ hget).2, hpath⟩
  rw [exportedFileObject, hpath]
  exact hstable

end

/-- The store that the entries of an export make. -/
def rebuilt (localeLe : Text → Text → Bool) (s : Store) (time : ℕ) : Store :=
  ⟨(OrdMap.empty.set [] (directoryRecord [] time)).setAll (s.sortedDirectories localeLe),
    OrdMap.ofList (s.sortedFiles localeLe)⟩

theorem Valid.same_rebuilt (hs : s.Valid) (time : ℕ) : s.Same (s.rebuilt localeLe time) := by
  refine ⟨fun k => get_setAll_of_perm (List.mergeSort_perm _ _) (fun j hj => ?_) k,
    fun k => get_setAll_of_perm (List.mergeSort_perm _ _) (fun j hj => ?_) k⟩
  · rw [has_set_iff] at hj
    rcases hj with rfl | hj
    · exact hs.root
    · cases hj
  · cases hj

theorem Valid.graph_of_same (hs : s.Valid) (h : s.Same s') :
    validateWorkspaceGraph s'.files s'.directories = .ok () := by
  refine validateWorkspaceGraph_eq_ok_iff.2 ⟨fun k hk => ?_, fun k hk => ?_, fun k hk _ => ?_⟩
  · rw [h.has_files] at hk
    rw [h.has_directories]
    exact hs.disjoint k hk
  · rw [h.has_files] at hk
    rw [h.has_directories]
    exact hs.fileParent k hk
  · rw [h.has_directories] at hk ⊢
    exact hs.directoryParent k hk

theorem sortedFiles_nodup : ((s.sortedFiles localeLe).map Prod.fst).Nodup :=
  ((List.mergeSort_perm _ _).map Prod.fst).nodup_iff.2 s.files.nodup

section

variable (htrans : ∀ a b c, localeLe a b = true → localeLe b c = true → localeLe a c = true)
  (htotal : ∀ a b, (localeLe a b || localeLe b a) = true)
include htrans htotal

/-- The entries of the rebuilt store are sorted, but for the root in front. -/
theorem exportSnapshot_rebuilt (hroot : s.RootFirst) (time : ℕ) :
    StoreMethod.exportSnapshot localeLe (s.rebuilt localeLe time) =
      StoreMethod.exportSnapshot localeLe s := by
  have hfiles : (s.rebuilt localeLe time).sortedFiles localeLe = s.sortedFiles localeLe := by
    have hentries : (s.rebuilt localeLe time).files.entries = s.sortedFiles localeLe :=
      OrdMap.entries_setAll OrdMap.empty _ sortedFiles_nodup
    rw [sortedFiles, hentries]
    exact List.mergeSort_of_pairwise (List.pairwise_mergeSort
      (fun a b c => htrans a.2.path b.2.path c.2.path) (fun a b => htotal a.2.path b.2.path) _)
  have hdirectories : (s.rebuilt localeLe time).sortedDirectories localeLe =
      s.sortedDirectories localeLe := by
    have hnodup : ((s.sortedDirectories localeLe).map Prod.fst).Nodup :=
      ((List.mergeSort_perm _ _).map Prod.fst).nodup_iff.2 s.directories.nodup
    cases hall : s.directories.entries with
    | nil =>
      rw [RootFirst, OrdMap.keys, hall] at hroot
      cases hroot
    | cons root rest =>
      obtain ⟨key, record⟩ := root
      obtain rfl : key = [] := by
        rw [RootFirst, OrdMap.keys, hall] at hroot
        exact Option.some.inj hroot
      obtain ⟨l₁, l₂, heq, hrest, -⟩ := @List.mergeSort_cons _
        (fun e e' : Text × StoreDirectory => localeLe e.2.path e'.2.path)
        (fun a b c => htrans a.2.path b.2.path c.2.path) (fun a b => htotal a.2.path b.2.path)
        ([], record) rest
      have hsorted : s.sortedDirectories localeLe = l₁ ++ ([], record) :: l₂ := by
        rw [sortedDirectories, hall, heq]
      have hentries :
          (s.rebuilt localeLe time).directories.entries = ([], record) :: (l₁ ++ l₂) := by
        rw [rebuilt, hsorted]
        rw [hsorted] at hnodup
        exact OrdMap.entries_setAll_single hnodup _
      rw [sortedDirectories, hentries, ← hrest, List.mergeSort_cons_mergeSort
        (fun a b c => htrans a.2.path b.2.path c.2.path) (fun a b => htotal a.2.path b.2.path),
        sortedDirectories, hall]
  rw [exportSnapshot_eq, exportSnapshot_eq, hfiles, hdirectories]

end

/-! ### The round trip -/

/-- Nothing is trimmed off the end of a key. -/
def Unpadded (k : Text) : Prop := ∀ c ∈ k.getLast?, isTrimmed c = false

theorem storeStable_iff_unpadded (hk : StoreKey k) : StoreStable k ↔ Unpadded k := by
  rcases hk.1 with rfl | hkey
  · exact iff_of_true (by decide) nofun
  · rw [storeStable_iff hkey]
    exact and_iff_right hk.2

/-- Every name of the tree keeps its end. -/
def AllUnpadded (s : Store) : Prop :=
  ∀ k, s.files.has k = true ∨ s.directories.has k = true → Unpadded k

/-- A copy that holds the same, and is exported alike. -/
structure Restores (localeLe : Text → Text → Bool) (s copy : Store) : Prop where
  same : s.Same copy
  exported : StoreMethod.exportSnapshot localeLe copy = StoreMethod.exportSnapshot localeLe s

theorem Sound.storeKey (hs : s.Sound) (hk : s.files.has k = true ∨ s.directories.has k = true) :
    StoreKey k := by
  rcases hk with hk | hk
  · obtain ⟨record, hrecord⟩ := (has_iff _ _).1 hk
    exact (hs.file k record hrecord).1
  · exact hs.storeKey_of_directory hk

/-- An import that is checked and whose entries are all read. -/
theorem loadSnapshot_run {snapshot : SnapshotObject} {directories : List (Text × StoreDirectory)}
    {files : List (Text × StoreFile)}
    (htime : nonNegativeTime (clock 0) = .ok time)
    (hversion : snapshot.version = 1 ∧ snapshot.root = workspacePreopenPath)
    (hdirectories : snapshot.directories.mapM loadDirectory = .ok directories)
    (hfiles : snapshot.files.mapM (StoreMethod.loadFileObject engine) = .ok files)
    (hgraph : validateWorkspaceGraph (OrdMap.ofList files)
      ((OrdMap.empty.set [] (directoryRecord [] time)).setAll directories) = .ok ())
    (fresh : Store) :
    StoreMethod.loadSnapshot engine (some snapshot) ⟨fresh, clock⟩ =
      (.ok (), ⟨⟨(OrdMap.empty.set [] (directoryRecord [] time)).setAll directories,
        OrdMap.ofList files⟩, clock.rest⟩) := by
  have hof : ∀ {α : Type} {x : Except WorkspaceError α} {a : α} (r : StoreRun), x = .ok a →
      StoreM.ofExcept x r = (.ok a, r) := by
    rintro α x a r rfl
    rfl
  have hnow : StoreM.currentTime ⟨fresh, clock⟩ = (.ok time, ⟨fresh, clock.rest⟩) := hof _ htime
  have hread : (ExceptT.mk (pure (snapshot.files.mapM (StoreMethod.loadFileObject engine))) :
      StoreM (List (Text × StoreFile))) ⟨fresh, clock.rest⟩ =
        (.ok files, ⟨fresh, clock.rest⟩) := by
    rw [hfiles]
    rfl
  unfold StoreMethod.loadSnapshot
  rw [ExceptT.bind_apply_of_ok hnow]
  dsimp only
  rw [if_neg (by simp [hversion]), ExceptT.bind_apply_of_ok (hof _ hdirectories),
    ExceptT.bind_apply_of_ok hread, ExceptT.bind_apply_of_ok (hof _ hgraph)]
  rfl

/-- Where every name is kept, the import makes the store again. -/
theorem Sound.loadSnapshot_exportSnapshot (hs : s.Sound) (hstable : s.AllUnpadded)
    (htime : nonNegativeTime (clock 0) = .ok time) (fresh : Store) :
    StoreMethod.loadSnapshot engine (some (StoreMethod.exportSnapshot localeLe s)) ⟨fresh, clock⟩ =
      (.ok (), ⟨s.rebuilt localeLe time, clock.rest⟩) := by
  have hdirectories : ((s.sortedDirectories localeLe).map exportedDirectory).mapM loadDirectory =
      .ok (s.sortedDirectories localeLe) := by
    rw [Except.mapM_eq_ok_iff, List.forall₂_map_left_iff, List.forall₂_same]
    intro e he
    have hmem := List.mem_mergeSort.1 he
    have hk : s.files.has e.1 = true ∨ s.directories.has e.1 = true :=
      .inr (OrdMap.has_of_get ((s.directories.mem_entries e.1 e.2).1 hmem))
    exact hs.loadDirectory_exported hmem
      ((storeStable_iff_unpadded (hs.storeKey hk)).2 (hstable _ hk))
  have hfiles : ((s.sortedFiles localeLe).map exportedFileObject).mapM
      (StoreMethod.loadFileObject engine) = .ok (s.sortedFiles localeLe) := by
    rw [Except.mapM_eq_ok_iff, List.forall₂_map_left_iff, List.forall₂_same]
    intro e he
    have hmem := List.mem_mergeSort.1 he
    have hk : s.files.has e.1 = true ∨ s.directories.has e.1 = true :=
      .inl (OrdMap.has_of_get ((s.files.mem_entries e.1 e.2).1 hmem))
    exact hs.loadFileObject_exported hmem
      ((storeStable_iff_unpadded (hs.storeKey hk)).2 (hstable _ hk))
  rw [exportSnapshot_eq]
  exact loadSnapshot_run htime ⟨rfl, rfl⟩ hdirectories hfiles
    (hs.toValid.graph_of_same (hs.toValid.same_rebuilt time)) fresh

/-- Every key of what an import makes is read from a spelled key, or is the root. -/
theorem Sound.exists_key_of_accepts (hs : s.Sound)
    (h : fresh.Accepts engine clock
      (.importSnapshot (some (StoreMethod.exportSnapshot localeLe s))) copy)
    (hk : copy.files.has k = true ∨ copy.directories.has k = true) :
    ∃ j, (s.files.has j = true ∨ s.directories.has j = true) ∧
      normalizeWorkspacePath (workspacePath j) = .ok k := by
  rw [exportSnapshot_eq] at h
  cases h with
  | @importSnapshot _ directories files time htime hversion hdirectories hfiles hgraph =>
    rcases hk with hk | hk
    · obtain ⟨record, hrecord⟩ := (has_iff _ _).1 hk
      have hmem := (exists_mem_of_get_setAll _ _ hrecord).resolve_right (by simp)
      obtain ⟨entry, hentry, hload⟩ := Except.exists_of_mem_mapM hfiles hmem
      obtain ⟨e, he, rfl⟩ := List.mem_map.1 hentry
      have hget := (s.files.mem_entries e.1 e.2).1 (List.mem_mergeSort.1 he)
      refine ⟨e.1, .inl (has_of_get hget), ?_⟩
      rw [← hs.filePath _ _ hget]
      exact (loadFileObject_eq_ok_iff.1 hload).1
    · obtain ⟨record, hrecord⟩ := (has_iff _ _).1 hk
      rcases exists_mem_of_get_setAll _ _ hrecord with hmem | hroot
      · obtain ⟨entry, hentry, hload⟩ := Except.exists_of_mem_mapM hdirectories hmem
        obtain ⟨e, he, rfl⟩ := List.mem_map.1 hentry
        have hget := (s.directories.mem_entries e.1 e.2).1 (List.mem_mergeSort.1 he)
        refine ⟨e.1, .inr (has_of_get hget), ?_⟩
        rw [← hs.directoryPath _ _ hget]
        exact (loadDirectory_eq_ok_iff.1 hload).1
      · rw [get_set] at hroot
        split at hroot
        next hnil =>
          subst hnil
          exact ⟨[], .inr hs.root, by decide⟩
        · cases hroot

/-- A copy with the same keys has lost the end of none of them. -/
theorem Sound.allUnpadded_of_same (hs : s.Sound)
    (h : fresh.Accepts engine clock
      (.importSnapshot (some (StoreMethod.exportSnapshot localeLe s))) copy) (hsame : s.Same copy) :
    s.AllUnpadded := by
  obtain ⟨boundFiles, hboundFiles⟩ := exists_length_le s.files
  obtain ⟨boundDirs, hboundDirs⟩ := exists_length_le s.directories
  intro k hk
  rw [← storeStable_iff_unpadded (hs.storeKey hk)]
  refine storeStable_of_onto (fun j => s.files.has j = true ∨ s.directories.has j = true)
    (max boundFiles boundDirs) (fun j hj => ?_) (fun j hj => (hs.storeKey hj).1)
    (fun j hj => ?_) hk
  · rcases hj with hj | hj
    · exact (hboundFiles j hj).trans (le_max_left _ _)
    · exact (hboundDirs j hj).trans (le_max_right _ _)
  · refine hs.exists_key_of_accepts h ?_
    rwa [hsame.has_files, hsame.has_directories]

/-- What an import makes where it is accepted: nothing of it depends on the store it replaces. -/
theorem Sound.restores_of_accepts_iff (hs : s.Sound) (engine : Base64Engine) (hroot : s.RootFirst)
    (htrans : ∀ a b c, localeLe a b = true → localeLe b c = true → localeLe a c = true)
    (htotal : ∀ a b, (localeLe a b || localeLe b a) = true) (hfresh : fresh.Valid) (clock : Clock) :
    (∃ copy rest, StoreMethod.loadSnapshot engine
        (some (StoreMethod.exportSnapshot localeLe s)) ⟨fresh, clock⟩ = (.ok (), ⟨copy, rest⟩) ∧
          Restores localeLe s copy) ↔ clock.Ticks 0 ∧ s.AllUnpadded := by
  constructor
  · rintro ⟨copy, rest, hload, hrestores⟩
    have haccepts := hfresh.accepts_of_callOp
      (o := ⟨clock, .importSnapshot (some (StoreMethod.exportSnapshot localeLe s))⟩) hload
    refine ⟨?_, hs.allUnpadded_of_same haccepts hrestores.same⟩
    cases haccepts with
    | importSnapshot htime => exact ⟨_, htime⟩
  · rintro ⟨⟨time, htime⟩, hstable⟩
    exact ⟨s.rebuilt localeLe time, clock.rest, hs.loadSnapshot_exportSnapshot hstable htime fresh,
      hs.toValid.same_rebuilt time, exportSnapshot_rebuilt htrans htotal hroot time⟩

/-- A store comes back, through the constructor as through an import, exactly when the clock gives a
time and no name ends in a character that is trimmed; a path is read back exactly then. -/
theorem restores_iff_unpadded {clock clock' : Clock} {snapshot : Option (Option SnapshotObject)}
    {start fresh : Store}
    (htrans : ∀ a b c, localeLe a b = true → localeLe b c = true → localeLe a c = true)
    (htotal : ∀ a b, (localeLe a b || localeLe b a) = true)
    (hstart : newStore engine clock snapshot = .ok start) (hreach : Reach (stepOp engine) start s)
    (hfresh : newStore engine clock' none = .ok fresh) (clock'' : Clock) :
    ((∃ copy rest, fresh.callOp engine
        ⟨clock'', .importSnapshot (some (StoreMethod.exportSnapshot localeLe s))⟩ =
          (.ok (), ⟨copy, rest⟩) ∧ Restores localeLe s copy) ↔ clock''.Ticks 0 ∧ s.AllUnpadded) ∧
      ((∃ copy, newStore engine clock'' (some (some (StoreMethod.exportSnapshot localeLe s))) =
          .ok copy ∧ Restores localeLe s copy) ↔
        clock''.Ticks 0 ∧ clock''.Ticks 1 ∧ s.AllUnpadded) ∧
      ∀ path k, normalizeWorkspacePath path = .ok k →
        (normalizeWorkspacePath (workspacePath k) = .ok k ↔ Unpadded k) := by
  have hs := sound_of_reach hstart hreach
  have hroot := rootFirst_of_reach hstart hreach
  refine ⟨hs.restores_of_accepts_iff engine hroot htrans htotal
    (sound_newStore hfresh).toValid clock'', ?_,
    fun path k hk => storeStable_iff_unpadded (storeKey_of_normalizeWorkspacePath hk)⟩
  have hload := fun now => hs.restores_of_accepts_iff engine hroot htrans htotal
    (valid_empty now) clock''.rest
  constructor
  · rintro ⟨copy, hnew, hrestores⟩
    obtain ⟨now, hnow, hnew⟩ := Except.bind_eq_ok_iff.1 hnew
    dsimp only at hnew
    split at hnew
    next r hr =>
      obtain rfl := Except.ok.inj hnew
      exact ⟨⟨now, Except.mapError_eq_ok_iff.1 hnow⟩,
        (hload now).1 ⟨r.store, r.clock, hr, hrestores⟩⟩
    next => cases hnew
  · rintro ⟨⟨now, hnow⟩, hticks, hnames⟩
    obtain ⟨copy, rest, hcopy, hrestores⟩ := (hload now).2 ⟨hticks, hnames⟩
    refine ⟨copy, ?_, hrestores⟩
    simp only [newStore, hnow, hcopy, Except.mapError, bind, Except.bind, pure, Except.pure]

/-! ### Runs whose calls name no padded key -/

/-- The key that a path is read as keeps its end, and so do the keys on the way to it. -/
def PathUnpadded (path : Text) : Prop :=
  ∀ k, normalizeWorkspacePath path = .ok k → Unpadded k ∧ ∀ j ∈ pathsTo k, Unpadded j

/-- The paths of the entries that a call may add. -/
def addedPaths : StoreOp → List Text
  | .writeFile path _ => [path]
  | .createDirectory path _ => [path]
  | .rename _ toPath => [toPath]
  | .importSnapshot (some snapshot) =>
      snapshot.directories.map SnapshotDirectoryEntry.path ++
        snapshot.files.map SnapshotFileObject.path
  | _ => []

/-- What a directory takes with it keeps its end. -/
theorem unpadded_rebase (hk : Unpadded k) (htarget : Unpadded target)
    (h : SepPath.AtOrBelow '/' source k) (hcanonical : CanonicalPath k) :
    Unpadded (SepPath.rebase source target k) := by
  rcases h with rfl | hbelow
  · rwa [SepPath.rebase_self]
  · obtain ⟨rest, rfl⟩ := SepPath.below_iff.1 hbelow
    have hrest : rest ≠ [] := by
      rintro rfl
      rcases hcanonical with hnil | hkey
      · simp at hnil
      · exact not_canonicalKey_nil (canonicalKey_append.1 hkey).2
    rw [SepPath.rebase_append]
    unfold Unpadded at hk ⊢
    rwa [List.getLast?_append_of_ne_nil _ (List.cons_ne_nil _ _)] at hk ⊢

theorem AllUnpadded.withDirectories (h : s.AllUnpadded) {keys : List Text}
    (hkeys : ∀ k ∈ keys, Unpadded k) (times : ℕ → ℕ) :
    (s.withDirectories keys times).AllUnpadded := by
  rintro k (hk | hk)
  · exact h k (.inl hk)
  · rcases (has_setAll _ _ _).1 hk with hmem | hold
    · obtain ⟨e, he, rfl⟩ := List.mem_map.1 hmem
      obtain ⟨i, hi, rfl⟩ := List.mem_mapIdx.1 he
      exact hkeys _ (List.getElem_mem _)
    · exact h k (.inr hold)

theorem Sound.allUnpadded_moveDirectory (hs : s.Sound) (h : s.AllUnpadded)
    (htarget : Unpadded target) (source : Text) :
    (s.moveDirectory 0 source target).AllUnpadded := by
  rintro j (hj | hj)
  · obtain ⟨k, hk, rfl⟩ := (has_rekey ..).1 hj
    have hold := h k (.inl hk)
    split
    next hbelow =>
      exact unpadded_rebase hold htarget hbelow.atOrBelow (hs.storeKey (.inl hk)).1
    · exact hold
  · obtain ⟨k, hk, rfl⟩ := (has_rekey ..).1 hj
    have hold := h k (.inr hk)
    unfold SepPath.move
    split
    next hat => exact unpadded_rebase hold htarget hat (hs.storeKey (.inr hk)).1
    · exact hold

theorem Sound.allUnpadded_accepts (hs : s.Sound) (h : s.AllUnpadded)
    (hop : ∀ path ∈ addedPaths op, PathUnpadded path) (haccepts : s.Accepts engine clock op s') :
    s'.AllUnpadded := by
  cases haccepts with
  | writeFile hkey =>
    rintro k (hk | hk)
    · rcases has_set_iff.1 hk with rfl | hold
      · exact (hop _ (List.mem_singleton_self _) _ hkey).1
      · exact h k (.inl hold)
    · exact h k (.inr hk)
  | deleteFile =>
    exact fun k hk => h k (hk.imp_left fun hk => (has_delete_iff.1 hk).2)
  | rootDirectory => exact h
  | createDirectory hkey =>
    rintro k (hk | hk)
    · exact h k (.inl hk)
    · rcases has_set_iff.1 hk with rfl | hold
      · exact (hop _ (List.mem_singleton_self _) _ hkey).1
      · exact h k (.inr hold)
  | ensureDirectory hkey =>
    exact h.withDirectories (fun k hk =>
      (hop _ (List.mem_singleton_self _) _ hkey).2 k (List.mem_filter.1 hk).1) _
  | deleteDirectory =>
    intro k hk
    simp only [Store.deleteDirectoryTree, has_filterKeys, Bool.and_eq_true] at hk
    exact h k (hk.imp And.right And.right)
  | renameFile hmovable =>
    rintro k (hk | hk)
    · rcases has_set_iff.1 hk with rfl | hold
      · exact (hop _ (List.mem_singleton_self _) _ hmovable.reads_target).1
      · exact h k (.inl (has_delete_iff.1 hold).2)
    · exact h k (.inr hk)
  | renameDirectory hmovable hfile hdir hinside htimes hmoved =>
    intro k hk
    rw [hmoved.has_files, hmoved.has_directories] at hk
    exact hs.allUnpadded_moveDirectory h
      (hop _ (List.mem_singleton_self _) _ hmovable.reads_target).1 _ k hk
  | importSnapshot htime hversion hdirectories hfiles hgraph =>
    rintro k (hk | hk)
    · obtain ⟨e, he, rfl⟩ := List.mem_map.1 ((has_ofList _ _).1 hk)
      obtain ⟨entry, hentry, hload⟩ := Except.exists_of_mem_mapM hfiles he
      exact (hop _ (List.mem_append_right _ (List.mem_map_of_mem hentry)) _
        (loadFileObject_eq_ok_iff.1 hload).1).1
    · rcases (has_setAll _ _ _).1 hk with hmem | hroot
      · obtain ⟨e, he, rfl⟩ := List.mem_map.1 hmem
        obtain ⟨entry, hentry, hload⟩ := Except.exists_of_mem_mapM hdirectories he
        exact (hop _ (List.mem_append_left _ (List.mem_map_of_mem hentry)) _
          (loadDirectory_eq_ok_iff.1 hload).1).1
      · rcases has_set_iff.1 hroot with rfl | hnone
        · intro c hc
          cases hc
        · cases hnone

theorem AllUnpadded.rejects (h : s.AllUnpadded) (hop : ∀ path ∈ addedPaths op, PathUnpadded path)
    (hrejects : s.Rejects clock op s') : s'.AllUnpadded := by
  cases hrejects with
  | unchanged => exact h
  | renameFile =>
    exact fun k hk => h k (hk.imp_left fun hk => (has_delete_iff.1 hk).2)
  | ensureDirectory hkey =>
    exact h.withDirectories (fun k hk => (hop _ (List.mem_singleton_self _) _ hkey).2 k
      (List.mem_filter.1 (List.mem_of_mem_take hk)).1) _

section

variable {start : Store} (hstart : newStore engine clock none = .ok start)
  (hrun : Run (stepOp engine) (fun _ o => ∀ path ∈ addedPaths o.op, PathUnpadded path) start s)

include hstart hrun

/-- In a run whose calls name no padded key there never is one. -/
theorem allUnpadded_of_run : s.AllUnpadded := by
  have hempty : start.AllUnpadded := by
    obtain ⟨now, -, hnew⟩ := Except.bind_eq_ok_iff.1 hstart
    obtain rfl := Except.ok.inj hnew
    rintro k (hk | hk)
    · cases hk
    · rcases has_set_iff.1 hk with rfl | hnone
      · exact nofun
      · cases hnone
  refine (hrun.invariant (I := fun t => t.Sound ∧ t.AllUnpadded) ⟨sound_newStore hstart, hempty⟩
    fun t o ht ho => ⟨ht.1.stepOp o, ?_⟩).2
  unfold stepOp
  cases hcall : t.callOp engine o with
  | mk result r =>
    cases result with
    | ok _ => exact ht.1.allUnpadded_accepts ht.2 ho (ht.1.toValid.accepts_of_callOp hcall)
    | error fault => exact ht.2.rejects ho (ht.1.toValid.rejects_of_callOp hcall)

/-- What is exported after such a run comes back, whatever store it is loaded into. -/
theorem restores_of_run
    (htrans : ∀ a b c, localeLe a b = true → localeLe b c = true → localeLe a c = true)
    (htotal : ∀ a b, (localeLe a b || localeLe b a) = true) (hfresh : fresh.Valid)
    {clock' : Clock} (hticks : clock'.Ticks 0) :
    ∃ copy rest, StoreMethod.loadSnapshot engine
        (some (StoreMethod.exportSnapshot localeLe s)) ⟨fresh, clock'⟩ = (.ok (), ⟨copy, rest⟩) ∧
      Restores localeLe s copy := by
  have hreach : Reach (stepOp engine) start s :=
    hrun.invariant (I := Reach (stepOp engine) start) .start fun t o ht _ => ht.next o trivial
  have hrestores := (sound_of_reach hstart hreach).restores_of_accepts_iff engine
    (rootFirst_of_reach hstart hreach) htrans htotal hfresh clock'
  exact hrestores.2 ⟨hticks, allUnpadded_of_run hstart hrun⟩

end

theorem restores_of_run_oneFile :
    ∃ copy rest, StoreMethod.loadSnapshot .buffer
        (some (StoreMethod.exportSnapshot (fun _ _ => true) oneFile)) ⟨empty 7, fun _ => some 9⟩ =
          (.ok (), ⟨copy, rest⟩) ∧ Restores (fun _ _ => true) oneFile copy := by
  have hpath : normalizeWorkspacePath "a".toList = .ok "a".toList := by decide
  refine restores_of_run (show newStore .buffer (fun _ => some 0) none = .ok (empty 0) from rfl)
    (Run.start.next _ fun path hmem k hk => ?_) (fun _ _ _ _ _ => rfl) (fun _ _ => rfl)
    (valid_empty 7) ⟨9, rfl⟩
  obtain rfl := List.mem_singleton.1 hmem
  obtain rfl := Except.ok.inj (hpath.symm.trans hk)
  have hunpadded : Unpadded "a".toList := fun c hc => Option.some.inj hc ▸ rfl
  refine ⟨hunpadded, fun j hj => ?_⟩
  have hpaths : pathsTo "a".toList = ["a".toList] := by decide
  rw [hpaths] at hj
  exact List.mem_singleton.1 hj ▸ hunpadded

/-- The snapshots of a store with one file hold one entry of each kind, which no order moves. -/
theorem restores_iff_unpadded_oneFile :
    ((∃ copy rest, (empty 7).callOp .buffer ⟨fun _ => some 9, .importSnapshot
        (some (StoreMethod.exportSnapshot (fun _ _ => true) oneFile))⟩ = (.ok (), ⟨copy, rest⟩) ∧
          Restores (fun _ _ => true) oneFile copy) ↔
        Clock.Ticks (fun _ => some 9) 0 ∧ oneFile.AllUnpadded) ∧
      ((∃ copy, newStore .buffer (fun _ => some 9)
          (some (some (StoreMethod.exportSnapshot (fun _ _ => true) oneFile))) = .ok copy ∧
            Restores (fun _ _ => true) oneFile copy) ↔
        Clock.Ticks (fun _ => some 9) 0 ∧ Clock.Ticks (fun _ => some 9) 1 ∧ oneFile.AllUnpadded) ∧
      ∀ path k, normalizeWorkspacePath path = .ok k →
        (normalizeWorkspacePath (workspacePath k) = .ok k ↔ Unpadded k) :=
  restores_iff_unpadded (fun _ _ _ _ _ => rfl) (fun _ _ => rfl)
    (show newStore .buffer (fun _ => some 0) none = .ok (empty 0) from rfl)
    (reach_step (stepOp .buffer) (empty 0) _)
    (show newStore .buffer (fun _ => some 7) none = .ok (empty 7) from rfl) fun _ => some 9

/-- A store with one file, whose name ends in a space. -/
def paddedFile : Store :=
  (empty 0).stepOp .buffer ⟨fun _ => some 0, .writeFile "a /".toList (.bytes [1])⟩

theorem exportSnapshot_paddedFile (localeLe : Text → Text → Bool) :
    StoreMethod.exportSnapshot localeLe paddedFile =
      ⟨[⟨some 0, "/workspace".toList⟩], [⟨"AQ==".toList, some 0, "/workspace/a ".toList, 1⟩],
        "/workspace".toList, 1⟩ := by
  have hdirectories : paddedFile.directories.values = [⟨0, "/workspace".toList⟩] := by decide
  have hfiles : paddedFile.files.values = [⟨[1], 0, "/workspace/a ".toList⟩] := by decide
  rw [StoreMethod.exportSnapshot, hdirectories, hfiles, List.map_singleton, List.map_singleton,
    List.mergeSort_singleton, List.mergeSort_singleton]
  decide

/-- The import is accepted, and the file has another name. -/
theorem not_restores_paddedFile :
    Reach (stepOp .buffer) (empty 0) paddedFile ∧
      normalizeWorkspacePath "a /".toList = .ok "a ".toList ∧
      normalizeWorkspacePath (workspacePath "a ".toList) = .ok "a".toList ∧
      ((empty 0).callOp .buffer ⟨fun _ => some 0, .importSnapshot
        (some (StoreMethod.exportSnapshot (fun _ _ => true) paddedFile))⟩).1 = .ok () ∧
      ¬paddedFile.Same ((empty 0).stepOp .buffer ⟨fun _ => some 0, .importSnapshot
        (some (StoreMethod.exportSnapshot (fun _ _ => true) paddedFile))⟩) := by
  rw [exportSnapshot_paddedFile]
  refine ⟨reach_step _ _ _, by decide, by decide, by decide, fun hsame => ?_⟩
  have hfile := hsame.has_files "a ".toList
  revert hfile
  decide

end Store

end WasmHost

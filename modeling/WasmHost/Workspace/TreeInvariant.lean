import WasmHost.Workspace.MethodEffects

/-!
# The tree that the memory store keeps

Whatever is called with whatever paths, and whatever the clock gives: the store is a tree with the
root in it, its records spell their keys, and its keys and times are ones that a snapshot can hold.
A call that rejects changes nothing unless the clock has stopped it behind its first change.

* `Store.Sound`: the invariant, which `Sound.stepOp` shows to be kept.
* `Store.isTree_of_reach`: what it says in every state of a run.
* `Store.same_iff_of_reach`: two trees hold the same when they are read alike.
-/

namespace WasmHost

open OrdMap SepPath List

/-! ### Keys that a path is read as -/

/-- A key that some path is read as. -/
def StoreKey (k : Text) : Prop := CanonicalPath k ∧ '\\' ∉ k

variable {k path part : Text}

/-- A key is made of the characters of its path. -/
theorem mem_trim_of_normalizeWorkspacePath (h : normalizeWorkspacePath path = .ok k) {c : Char}
    (hc : c ≠ '/') (hk : c ∈ k) : c ∈ trim path := by
  simp only [normalizeWorkspacePath] at h
  split at h
  · cases h
  split at h
  · cases h
  next relative hrelative =>
    have hsuffix : c ∈ relative → c ∈ trim path := by
      intro hmem
      split at hrelative
      · rw [← Option.some.inj hrelative] at hmem
        cases hmem
      · split at hrelative
        · rw [← Option.some.inj hrelative] at hmem
          exact mem_of_mem_drop hmem
        · split at hrelative
          · cases hrelative
          · rwa [Option.some.inj hrelative]
    split at h
    · cases h
    next parts hparts =>
      obtain rfl := Except.ok.inj h
      obtain ⟨rfl, -⟩ := keptSegments_eq_some_iff.1 hparts
      apply hsuffix
      have hslash : ∀ s ∈ (relative.splitOn '/').filter isNamed, '/' ∉ s :=
        fun s hs => not_mem_of_mem_splitOn (mem_filter.1 hs).1
      have hne : (relative.splitOn '/').filter isNamed ≠ [] := by
        intro hnil
        rw [hnil] at hk
        cases hk
      rw [mem_iff_exists_mem_splitOn hc, splitOn_join hne hslash] at hk
      obtain ⟨s, hs, hmem⟩ := hk
      exact (mem_iff_exists_mem_splitOn hc).2 ⟨s, (mem_filter.1 hs).1, hmem⟩

theorem storeKey_of_normalizeWorkspacePath (h : normalizeWorkspacePath path = .ok k) :
    StoreKey k := by
  refine ⟨canonicalPath_of_normalizeWorkspacePath h, fun hmem => ?_⟩
  have hraw := mem_trim_of_normalizeWorkspacePath h (by decide) hmem
  simp [normalizeWorkspacePath, hraw] at h

theorem StoreKey.nil : StoreKey [] := ⟨.inl rfl, not_mem_nil⟩

theorem StoreKey.rebase {source target : Text} (hk : StoreKey k) (hne : k ≠ [])
    (htarget : StoreKey target) (htarget_ne : target ≠ []) (h : SepPath.AtOrBelow '/' source k) :
    StoreKey (SepPath.rebase source target k) := by
  refine ⟨.inr ((hk.1.resolve_left hne).rebase (htarget.1.resolve_left htarget_ne) h), ?_⟩
  unfold SepPath.rebase
  split
  · exact htarget.2
  · rw [mem_append, not_or]
    exact ⟨htarget.2, fun hmem => hk.2 (mem_of_mem_drop hmem)⟩

/-- A name on the way to a key. -/
structure StoreName (part : Text) : Prop where
  name : NameSegment part
  backslash : '\\' ∉ part

theorem StoreKey.joinKey {base : Text} (hbase : StoreKey base) (hpart : StoreName part) :
    StoreKey (joinKey base part) := by
  have hkey : CanonicalKey part :=
    (allSegments_of_not_mem hpart.name.2).2 hpart.name.1
  refine ⟨.inr (CanonicalKey.joinKey hbase.1 hkey), ?_⟩
  unfold WasmHost.joinKey
  split
  · exact hpart.backslash
  · simp [hbase.2, hpart.backslash]

/-- The names that a key is made of. -/
theorem StoreKey.storeName (hk : StoreKey k) (hpart : part ∈ (k.splitOn '/').filter (· ≠ [])) :
    StoreName part := by
  obtain ⟨hmem, hne⟩ := mem_filter.1 hpart
  have hsegment : CanonicalSegment part := by
    rcases hk.1 with rfl | hkey
    · rw [splitOn_nil, mem_singleton] at hmem
      simp [hmem] at hne
    · exact hkey part hmem
  refine ⟨⟨hsegment, not_mem_of_mem_splitOn hmem⟩, fun hback => hk.2 ?_⟩
  exact (mem_iff_exists_mem_splitOn (by decide)).2 ⟨part, hmem, hback⟩

/-- Every key is read from some path: a slash behind it keeps its end from being trimmed. -/
theorem StoreKey.exists_path (hk : StoreKey k) : ∃ path, normalizeWorkspacePath path = .ok k := by
  rcases hk.1 with rfl | hkey
  · exact ⟨workspacePreopenPath, by decide⟩
  refine ⟨workspacePreopenPath ++ '/' :: (k ++ ['/']), ?_⟩
  have htrim : trim (workspacePreopenPath ++ '/' :: (k ++ ['/'])) =
      workspacePreopenPath ++ '/' :: (k ++ ['/']) := by
    rw [trim_workspacePath, show workspacePreopenPath ++ '/' :: (k ++ ['/']) =
      (workspacePreopenPath ++ '/' :: k) ++ ['/'] by simp,
      rdropWhile_concat_neg _ _ _ (by decide)]
  have hbad : ∀ c, c ∉ workspacePreopenPath → c ≠ '/' → c ∉ k →
      c ∉ workspacePreopenPath ++ '/' :: (k ++ ['/']) := by
    intro c hpre hslash hmem
    simp [hpre, hslash, hmem]
  have hkept : keptSegments ((k ++ ['/']).splitOn '/') = some (k.splitOn '/') := by
    rw [keptSegments_eq_some_iff, splitOn_append_sep, splitOn_nil, filter_append]
    refine ⟨?_, fun hdots => ?_⟩
    · rw [filter_eq_self.2 fun s hs => by simp [isNamed, (hkey s hs).1, (hkey s hs).2.1]]
      simp [isNamed_nil]
    · rcases mem_append.1 hdots with hmem | hmem
      · exact (hkey _ hmem).2.2.1 rfl
      · simp at hmem
  have hne : workspacePreopenPath ++ '/' :: (k ++ ['/']) ≠ workspacePreopenPath := by
    intro heq
    have hlength := congrArg List.length heq
    simp at hlength
  have hprefix : (workspacePreopenPath ++ ['/']).isPrefixOf
      (workspacePreopenPath ++ '/' :: (k ++ ['/'])) = true := by
    rw [List.isPrefixOf_iff_prefix]
    exact ⟨k ++ ['/'], by simp⟩
  have hraw : ¬(workspacePreopenPath ++ '/' :: (k ++ ['/']) = [] ∨
      '\x00' ∈ workspacePreopenPath ++ '/' :: (k ++ ['/']) ∨
      '\\' ∈ workspacePreopenPath ++ '/' :: (k ++ ['/'])) := by
    rw [not_or, not_or]
    exact ⟨by simp, hbad _ (by decide) (by decide) hkey.nul_not_mem,
      hbad _ (by decide) (by decide) hk.2⟩
  unfold normalizeWorkspacePath
  simp only [htrim, if_neg hraw, if_neg hne, if_pos hprefix]
  rw [show (workspacePreopenPath ++ '/' :: (k ++ ['/'])).drop (workspacePreopenPath.length + 1) =
    k ++ ['/'] from rfl, hkept]
  dsimp only
  rw [intercalate_splitOn]

namespace Store

/-! ### The invariant -/

/-- A valid store with keys and times that a snapshot can hold. -/
structure Sound (s : Store) : Prop extends s.Valid where
  file : ∀ k record, s.files.get k = some record → StoreKey k ∧ record.mtimeMs < 2 ^ 53
  directory : ∀ k record, s.directories.get k = some record → StoreKey k ∧ record.mtimeMs < 2 ^ 53

variable {s s' : Store} {engine : Base64Engine} {source target : Text} {op : StoreOp}
    {snapshot : Option (Option SnapshotObject)}

namespace Sound

variable {k : Text} {now : ℕ}

theorem storeKey_of_directory (hs : s.Sound) (hk : s.directories.has k = true) : StoreKey k := by
  obtain ⟨record, hrecord⟩ := (has_iff _ _).1 hk
  exact (hs.directory k record hrecord).1

theorem set_file (hs : s.Sound) (hk : StoreKey k) (hdir : s.directories.has k = false)
    (hparent : s.directories.has (parentPath k) = true) (content : Bytes) (hnow : now < 2 ^ 53) :
    Sound { s with files := s.files.set k ⟨content, now, workspacePath k⟩ } := by
  refine ⟨hs.toValid.set_file hdir hparent content now, fun j record hj => ?_, hs.directory⟩
  rw [get_set] at hj
  split at hj
  next hjk =>
    obtain rfl := Option.some.inj hj
    exact ⟨hjk ▸ hk, hnow⟩
  · exact hs.file j record hj

theorem set_directory (hs : s.Sound) (hk : StoreKey k) (hfile : s.files.has k = false)
    (hparent : s.directories.has (parentPath k) = true) (hnow : now < 2 ^ 53) :
    Sound { s with directories := s.directories.set k ⟨now, workspacePath k⟩ } := by
  refine ⟨hs.toValid.set_directory hfile hparent now, hs.file, fun j record hj => ?_⟩
  rw [get_set] at hj
  split at hj
  next hjk =>
    obtain rfl := Option.some.inj hj
    exact ⟨hjk ▸ hk, hnow⟩
  · exact hs.directory j record hj

theorem delete_file (hs : s.Sound) (k : Text) : Sound { s with files := s.files.delete k } := by
  refine ⟨hs.toValid.delete_file k, fun j record hj => ?_, hs.directory⟩
  rw [get_delete] at hj
  split at hj
  · cases hj
  · exact hs.file j record hj

theorem deleteDirectoryTree (hs : s.Sound) (hpath : path ≠ []) :
    (s.deleteDirectoryTree path).Sound := by
  refine ⟨hs.toValid.deleteDirectoryTree hpath, fun k record hk => ?_, fun k record hk => ?_⟩
  all_goals
    rw [Store.deleteDirectoryTree, get_filterKeys] at hk
    split at hk
  · exact hs.file k record hk
  · cases hk
  · exact hs.directory k record hk
  · cases hk

/-- Every new directory is made in one that is there by then. -/
theorem withDirectories {parts : List Text} (hparts : ∀ part ∈ parts, StoreName part)
    {current : Text} (hs : s.Sound) (hcurrent : s.directories.has current = true)
    (hfiles : ∀ k ∈ pathsFrom current parts, s.files.has k = false) {times : ℕ → ℕ} {n : ℕ}
    (htimes : ∀ i < n, i < (s.missing (pathsFrom current parts)).length → times i < 2 ^ 53) :
    (s.withDirectories ((s.missing (pathsFrom current parts)).take n) times).Sound := by
  induction parts generalizing current s times n with
  | nil =>
    rw [pathsFrom, missing, filter_nil, take_nil]
    exact hs
  | cons part parts ih =>
    obtain ⟨hpart, hrest⟩ := forall_mem_cons.1 hparts
    obtain ⟨hfile, hbelow⟩ := forall_mem_cons.1 hfiles
    have hkey : StoreKey (joinKey current part) :=
      (hs.storeKey_of_directory hcurrent).joinKey hpart
    have hne : joinKey current part ≠ [] := joinKey_ne_nil current hpart.name.1.1
    rw [pathsFrom, missing_cons] at htimes ⊢
    by_cases hhas : s.directories.has (joinKey current part) = true
    · rw [if_pos hhas] at htimes ⊢
      exact ih hrest hs hhas hbelow htimes
    · rw [if_neg hhas] at htimes ⊢
      cases n with
      | zero => exact hs
      | succ n =>
        have hparent : s.directories.has (parentPath (joinKey current part)) = true := by
          rwa [parentPath_joinKey hpart.name.2]
        have hnew : joinKey current part ∉ pathsFrom (joinKey current part) parts :=
          fun hmem => not_below_self _ (pathsFrom_below hne hmem)
        have hset := hs.set_directory hkey hfile hparent
          (htimes 0 (Nat.succ_pos n) (Nat.succ_pos _))
        rw [take_succ_cons, withDirectories_cons, ← missing_set hnew]
        refine ih hrest hset (by simp) hbelow fun i hi hlt => ?_
        rw [missing_set hnew] at hlt
        exact htimes (i + 1) (Nat.succ_lt_succ hi) (Nat.succ_lt_succ hlt)

/-- A directory that moves takes its time from the clock. -/
theorem moveDirectory (hs : s.Sound) {source target : Text} (hsource : source ≠ [])
    (htarget : StoreKey target) (htarget_ne : target ≠ [])
    (hdir : s.directories.has source = true) (hinside : ¬SepPath.Below '/' source target)
    (hparent : s.directories.has (parentPath target) = true)
    (hfree : s.directories.has target = false ∧ s.files.has target = false) :
    (s.moveDirectory 0 source target).Sound := by
  have hbelow_ne : ∀ {k : Text}, SepPath.Below '/' source k → k ≠ [] := by
    rintro k hbelow rfl
    exact absurd hbelow.length_lt (Nat.not_lt_zero _)
  refine ⟨hs.toValid.moveDirectory hsource htarget_ne hdir hinside hparent hfree 0,
    fun j record hj => ?_, fun j record hj => ?_⟩
  · obtain ⟨k, old, hk, rfl, rfl⟩ := exists_of_get_rekey hj
    obtain ⟨hkey, htime⟩ := hs.file k old hk
    by_cases hbelow : SepPath.Below '/' source k
    · simp only [hbelow, if_true]
      exact ⟨hkey.rebase (hbelow_ne hbelow) htarget htarget_ne hbelow.atOrBelow, by decide⟩
    · simp only [hbelow, if_false]
      exact ⟨hkey, htime⟩
  · obtain ⟨k, old, hk, rfl, rfl⟩ := exists_of_get_rekey hj
    obtain ⟨hkey, htime⟩ := hs.directory k old hk
    by_cases hat : SepPath.AtOrBelow '/' source k
    · have hne : k ≠ [] := by
        rcases hat with rfl | hbelow
        · exact hsource
        · exact hbelow_ne hbelow
      rw [move_of_atOrBelow target hat]
      simp only [hat, if_true]
      exact ⟨hkey.rebase hne htarget htarget_ne hat, by decide⟩
    · rw [move_of_not_atOrBelow target hat]
      simp only [hat, if_false]
      exact ⟨hkey, htime⟩

end Sound

/-! ### Other times -/

theorem isSome_eq_of_rel {α β : Type} {rel : α → β → Prop} {a : Option α} {b : Option β}
    (h : Option.Rel rel a b) : b.isSome = a.isSome := by
  cases h with
  | some | none => rfl

namespace Restamped

variable {s' : Store} (h : s.Restamped s')
include h

theorem has_directories (k : Text) : s'.directories.has k = s.directories.has k :=
  isSome_eq_of_rel (h.directories k)

theorem has_files (k : Text) : s'.files.has k = s.files.has k := isSome_eq_of_rel (h.files k)

theorem exists_directory {record' : StoreDirectory} (hk : s'.directories.get k = some record') :
    ∃ record, s.directories.get k = some record ∧ RestampedDirectory record record' := by
  have hrel := h.directories k
  rw [hk] at hrel
  generalize s.directories.get k = found at hrel
  cases hrel with
  | some hrecord => exact ⟨_, rfl, hrecord⟩

theorem exists_file {record' : StoreFile} (hk : s'.files.get k = some record') :
    ∃ record, s.files.get k = some record ∧ RestampedFile record record' := by
  have hrel := h.files k
  rw [hk] at hrel
  generalize s.files.get k = found at hrel
  cases hrel with
  | some hrecord => exact ⟨_, rfl, hrecord⟩

theorem sound (hs : s.Sound) : s'.Sound := by
  refine ⟨⟨?_, fun k hk => ?_, fun k hk => ?_, fun k hk => ?_, fun k record' hk => ?_,
    fun k record' hk => ?_⟩, fun k record' hk => ?_, fun k record' hk => ?_⟩
  · rw [h.has_directories]
    exact hs.root
  · rw [h.has_files] at hk
    rw [h.has_directories]
    exact hs.disjoint k hk
  · rw [h.has_files] at hk
    rw [h.has_directories]
    exact hs.fileParent k hk
  · rw [h.has_directories] at hk ⊢
    exact hs.directoryParent k hk
  · obtain ⟨record, hrecord, hpath, -⟩ := h.exists_file hk
    rw [hpath, hs.filePath k record hrecord]
  · obtain ⟨record, hrecord, hpath, -⟩ := h.exists_directory hk
    rw [hpath, hs.directoryPath k record hrecord]
  · obtain ⟨record, hrecord, -, -, htime⟩ := h.exists_file hk
    exact (hs.file k record hrecord).imp_right htime
  · obtain ⟨record, hrecord, -, htime⟩ := h.exists_directory hk
    exact (hs.directory k record hrecord).imp_right htime

end Restamped

/-! ### Snapshots -/

theorem loadFileObject_eq_ok_iff {entry : SnapshotFileObject} {record : StoreFile} :
    StoreMethod.loadFileObject engine entry = .ok (k, record) ↔
      normalizeWorkspacePath entry.path = .ok k ∧ k ≠ [] ∧
        StoreMethod.base64ToBytes engine entry.contentBase64 = .ok record.content ∧
        nonNegativeTime entry.mtimeMs = .ok record.mtimeMs ∧ record.path = workspacePath k := by
  obtain ⟨bytes, time, path⟩ := record
  simp only [StoreMethod.loadFileObject, bind, Except.bind_eq_ok_iff, Except.mapError_eq_ok_iff,
    pure, Except.pure, Except.ite_error_eq_ok_iff, Except.ok.injEq, Prod.mk.injEq,
    StoreFile.mk.injEq]
  constructor
  · rintro ⟨key, hkey, hne, content, hcontent, mtimeMs, htime, rfl, rfl, rfl, rfl⟩
    exact ⟨hkey, hne, hcontent, htime, rfl⟩
  · rintro ⟨hkey, hne, hcontent, htime, rfl⟩
    exact ⟨k, hkey, hne, bytes, hcontent, time, htime, rfl, rfl, rfl, rfl⟩

theorem sound_of_loaded {snapshot : SnapshotObject} {directories : List (Text × StoreDirectory)}
    {files : List (Text × StoreFile)} {time : ℕ} (htime : time < 2 ^ 53)
    (hdirectories : snapshot.directories.mapM loadDirectory = .ok directories)
    (hfiles : snapshot.files.mapM (StoreMethod.loadFileObject engine) = .ok files)
    (hgraph : validateWorkspaceGraph (OrdMap.ofList files)
      ((OrdMap.empty.set [] (directoryRecord [] time)).setAll directories) = .ok ()) :
    Sound ⟨(OrdMap.empty.set [] (directoryRecord [] time)).setAll directories,
      OrdMap.ofList files⟩ := by
  have hdirectory : ∀ e ∈ directories, StoreKey e.1 ∧ e.2.mtimeMs < 2 ^ 53 ∧
      e.2.path = workspacePath e.1 := by
    intro e he
    obtain ⟨entry, -, hentry⟩ := Except.exists_of_mem_mapM hdirectories he
    obtain ⟨hkey, hmtime, hpath⟩ := loadDirectory_eq_ok_iff.1 hentry
    exact ⟨storeKey_of_normalizeWorkspacePath hkey, lt_of_nonNegativeTime hmtime, hpath⟩
  have hfile : ∀ e ∈ files, StoreKey e.1 ∧ e.2.mtimeMs < 2 ^ 53 ∧ e.2.path = workspacePath e.1 := by
    intro e he
    obtain ⟨entry, -, hentry⟩ := Except.exists_of_mem_mapM hfiles he
    obtain ⟨hkey, -, -, hmtime, hpath⟩ := loadFileObject_eq_ok_iff.1 hentry
    exact ⟨storeKey_of_normalizeWorkspacePath hkey, lt_of_nonNegativeTime hmtime, hpath⟩
  refine ⟨valid_of_validateWorkspaceGraph (fun e he => (hdirectory e he).2.2)
    (fun e he => (hfile e he).2.2) hgraph, fun k record hk => ?_, fun k record hk => ?_⟩
  · have hmem := (exists_mem_of_get_setAll _ _ hk).resolve_right (by simp)
    exact ⟨(hfile _ hmem).1, (hfile _ hmem).2.1⟩
  · rcases exists_mem_of_get_setAll _ _ hk with hmem | hroot
    · exact ⟨(hdirectory _ hmem).1, (hdirectory _ hmem).2.1⟩
    · rw [get_set] at hroot
      split at hroot
      next hnil =>
        rw [← Option.some.inj hroot, hnil]
        exact ⟨StoreKey.nil, htime⟩
      · cases hroot

/-! ### Calls and runs -/

theorem Movable.not_below {fromPath toPath : Text} (h : s.Movable fromPath toPath source target)
    (hinside : isChildPath source target = false) : ¬SepPath.Below '/' source target := by
  simpa [isChildPath, h.source_ne] using hinside

/-- A directory that has moved is gone. -/
theorem Valid.not_has_moveDirectory (hs : s.Valid) (hdir : s.directories.has source = true)
    (hfree : s.directories.has target = false ∧ s.files.has target = false) (now : ℕ) :
    ¬(s.moveDirectory now source target).directories.has source = true := by
  intro hhas
  obtain ⟨k, hk, hmove⟩ := (has_rekey ..).1 hhas
  by_cases hat : SepPath.AtOrBelow '/' source k
  · rw [move_of_atOrBelow target hat] at hmove
    have hinside := rebase_atOrBelow target hat
    rw [hmove] at hinside
    exact hs.not_atOrBelow_of_free hfree (.inl hdir) hinside
  · rw [move_of_not_atOrBelow target hat] at hmove
    exact hat (hmove ▸ atOrBelow_self k)

variable {clock : Clock}

theorem Sound.accepts (hs : s.Sound) (h : s.Accepts engine clock op s') : s'.Sound := by
  cases h with
  | writeFile hkey hne hdir hparent hbytes htime =>
    exact hs.set_file (storeKey_of_normalizeWorkspacePath hkey) hdir
      (requireParentDirectory_eq_ok_iff.1 hparent).2 _ (lt_of_nonNegativeTime htime)
  | deleteFile => exact hs.delete_file _
  | rootDirectory => exact hs
  | createDirectory hkey hne hfile hparent hdir htime =>
    exact hs.set_directory (storeKey_of_normalizeWorkspacePath hkey) hfile
      (requireParentDirectory_eq_ok_iff.1 hparent).2 (lt_of_nonNegativeTime htime)
  | ensureDirectory hkey hne hfiles htimes =>
    rw [← take_length (l := s.missing (pathsTo _))]
    exact Sound.withDirectories
      (fun part hpart =>
        (storeKey_of_normalizeWorkspacePath hkey).storeName hpart) hs hs.root hfiles
      (fun i hi _ => lt_of_nonNegativeTime (htimes i hi))
  | deleteDirectory hkey hne hdir hempty => exact hs.deleteDirectoryTree hne
  | renameFile h hfile htime =>
    exact (hs.delete_file _).set_file (storeKey_of_normalizeWorkspacePath h.reads_target)
      h.directory_free (requireParentDirectory_eq_ok_iff.1 h.parent).2 _
        (lt_of_nonNegativeTime htime)
  | renameDirectory h hfile hdir hinside htimes hmoved =>
    refine hmoved.sound (hs.moveDirectory h.source_ne
      (storeKey_of_normalizeWorkspacePath h.reads_target) h.target_ne hdir (h.not_below hinside)
      (requireParentDirectory_eq_ok_iff.1 h.parent).2 ⟨h.directory_free, h.file_free⟩)
  | importSnapshot htime hversion hdirectories hfiles hgraph =>
    exact sound_of_loaded (lt_of_nonNegativeTime htime) hdirectories hfiles hgraph

theorem Sound.rejects (hs : s.Sound) (h : s.Rejects clock op s') : s'.Sound := by
  cases h with
  | unchanged => exact hs
  | renameFile => exact hs.delete_file _
  | ensureDirectory hkey hfiles hpos hlt htimes hclock =>
    exact Sound.withDirectories
      (fun part hpart =>
        (storeKey_of_normalizeWorkspacePath hkey).storeName hpart) hs hs.root hfiles
      (fun i hi _ => lt_of_nonNegativeTime (htimes i hi))

theorem Sound.stepOp (hs : s.Sound) (o : ClockedOp) : (s.stepOp engine o).Sound := by
  unfold Store.stepOp
  cases hcall : s.callOp engine o with
  | mk result r =>
    cases result with
    | ok => exact hs.accepts (hs.toValid.accepts_of_callOp hcall)
    | error => exact hs.rejects (hs.toValid.rejects_of_callOp hcall)

theorem sound_empty {now : ℕ} (hnow : now < 2 ^ 53) : (empty now).Sound := by
  refine ⟨valid_empty now, fun k record hk => ?_, fun k record hk => ?_⟩
  · cases hk
  · rw [empty, get_set] at hk
    split at hk
    next hnil =>
      rw [← Option.some.inj hk, hnil]
      exact ⟨StoreKey.nil, hnow⟩
    · cases hk

/-- A constructor that does not throw makes a sound store. -/
theorem sound_newStore (h : newStore engine clock snapshot = .ok s) : s.Sound := by
  obtain ⟨now, hnow, h⟩ := Except.bind_eq_ok_iff.1 h
  have hempty := sound_empty (lt_of_nonNegativeTime (Except.mapError_eq_ok_iff.1 hnow))
  cases snapshot with
  | none => exact Except.ok.inj h ▸ hempty
  | some snapshot =>
    dsimp only at h
    split at h
    next r hload =>
      obtain rfl := Except.ok.inj h
      exact hempty.accepts (hempty.toValid.accepts_of_callOp
        (o := ⟨clock.rest, .importSnapshot snapshot⟩) hload)
    · cases h

theorem sound_of_reach {start : Store} (hstart : newStore engine clock snapshot = .ok start)
    (hreach : Reach (stepOp engine) start s) : s.Sound :=
  hreach.invariant (sound_newStore hstart) fun _ o hs _ => hs.stepOp o

/-! ### What is seen of it -/

/-- A tree whose records spell their keys. -/
structure IsTree (s : Store) : Prop where
  graph : validateWorkspaceGraph s.files s.directories = .ok ()
  root : ∃ record, s.directories.get [] = some record ∧ record.path = "/workspace".toList
  directoryPath : ∀ k record, k ≠ [] → s.directories.get k = some record →
    record.path = "/workspace/".toList ++ k
  filePath : ∀ k record, s.files.get k = some record → record.path = "/workspace/".toList ++ k

theorem Valid.isTree (hs : s.Valid) : s.IsTree := by
  have hspelled : ∀ {k : Text}, k ≠ [] → workspacePath k = "/workspace/".toList ++ k := by
    intro k hk
    rw [workspacePath, if_neg hk]
    rfl
  refine ⟨validateWorkspaceGraph_eq_ok_iff.2 ⟨hs.disjoint, hs.fileParent, fun k hk _ =>
    hs.directoryParent k hk⟩, ?_, fun k record hne hk => ?_, fun k record hk => ?_⟩
  · obtain ⟨record, hrecord⟩ := (has_iff _ _).1 hs.root
    exact ⟨record, hrecord, hs.directoryPath [] record hrecord⟩
  · rw [hs.directoryPath k record hk, hspelled hne]
  · have hne : k ≠ [] := by
      rintro rfl
      have hroot := hs.disjoint [] (has_of_get hk)
      rw [hs.root] at hroot
      cases hroot
    rw [hs.filePath k record hk, hspelled hne]

theorem isTree_of_reach {clock : Clock} {snapshot : Option (Option SnapshotObject)} {start : Store}
    (hstart : newStore engine clock snapshot = .ok start)
    (hreach : Reach (stepOp engine) start s) :
    s.IsTree ∧ ∀ o fault, (s.callOp engine o).1 = .error fault → ¬s.Interrupted o.clock o.op →
      s.stepOp engine o = s := by
  have hs := (sound_of_reach hstart hreach).toValid
  refine ⟨hs.isTree, fun o fault hfault hclock => ?_⟩
  have hrejects : s.Rejects o.clock o.op (s.stepOp engine o) := by
    unfold stepOp
    cases hcall : s.callOp engine o with
    | mk result r =>
      rw [hcall] at hfault
      subst hfault
      exact hs.rejects_of_callOp hcall
  generalize s.stepOp engine o = s' at hrejects
  obtain ⟨clock', op⟩ := o
  cases hrejects with
  | unchanged h => rfl
  | renameFile h hfile hstop => exact absurd (.rename h hfile hstop) hclock
  | ensureDirectory hkey hfiles hpos hlt htimes hstop =>
    exact absurd (.createDirectory hkey hfiles hpos hlt (fun j hj => ⟨_, htimes j hj⟩) hstop) hclock

/-! ### What a read sees of it -/

section

variable {s' : Store} {path : Text}

theorem Same.stat (h : s.Same s') (path : Text) : s'.stat path = s.stat path := by
  unfold Store.stat
  cases normalizeWorkspacePath path with
  | error => rfl
  | ok => simp only [bind, Except.bind, h.files, h.directories]

theorem Same.readFile (h : s.Same s') (path : Text) : s'.readFile path = s.readFile path := by
  unfold Store.readFile
  cases normalizeWorkspacePath path with
  | error => rfl
  | ok => simp only [bind, Except.bind, h.files, h.has_directories]

/-- A file is what `stat` and `readFile` report of its path. -/
theorem Valid.get_file_iff (hs : s.Valid) (hpath : normalizeWorkspacePath path = .ok k)
    {record : StoreFile} :
    s.files.get k = some record ↔ record.path = workspacePath k ∧
      s.readFile path = .ok record.content ∧
        ∃ size, s.stat path = .ok ⟨.file, record.mtimeMs, workspacePath k, size⟩ := by
  unfold Store.stat Store.readFile
  simp only [hpath, bind, Except.bind]
  cases hfile : s.files.get k with
  | none =>
    refine iff_of_false nofun ?_
    rintro ⟨-, hread, -⟩
    dsimp only at hread
    split at hread <;> cases hread
  | some found =>
    constructor
    · rintro ⟨⟩
      exact ⟨hs.filePath k record hfile, rfl, _, rfl⟩
    · rintro ⟨hspelled, hread, size, hstat⟩
      have hmtime := (WorkspaceStat.mk.inj (Except.ok.inj hstat)).2.1
      have hcontent : found.content = record.content := Except.ok.inj hread
      obtain ⟨content, mtimeMs, recordPath⟩ := record
      obtain rfl : mtimeMs = found.mtimeMs := hmtime.symm
      obtain rfl : content = found.content := hcontent.symm
      obtain rfl : recordPath = found.path := hspelled.trans (hs.filePath k found hfile).symm
      rfl

/-- A directory is what `stat` reports of its path. -/
theorem Valid.get_directory_iff (hs : s.Valid) (hpath : normalizeWorkspacePath path = .ok k)
    {record : StoreDirectory} :
    s.directories.get k = some record ↔ record.path = workspacePath k ∧
      s.stat path = .ok ⟨.directory, record.mtimeMs, workspacePath k, 0⟩ := by
  unfold Store.stat
  simp only [hpath, bind, Except.bind]
  cases hfile : s.files.get k with
  | some =>
    rw [(has_eq_false_iff _ _).1 (hs.disjoint k (has_of_get hfile))]
    exact iff_of_false nofun fun h => nomatch h.2
  | none =>
    cases hdirectory : s.directories.get k with
    | none => exact iff_of_false nofun fun h => nomatch h.2
    | some found =>
      constructor
      · rintro ⟨⟩
        exact ⟨hs.directoryPath k record hdirectory, rfl⟩
      · rintro ⟨hspelled, hstat⟩
        have hmtime := (WorkspaceStat.mk.inj (Except.ok.inj hstat)).2.1
        obtain ⟨mtimeMs, recordPath⟩ := record
        obtain rfl : mtimeMs = found.mtimeMs := hmtime.symm
        obtain rfl : recordPath = found.path :=
          hspelled.trans (hs.directoryPath k found hdirectory).symm
        rfl

theorem Sound.same_iff (hs : s.Sound) (hs' : s'.Sound) :
    s.Same s' ↔
      (∀ path, s'.stat path = s.stat path) ∧ ∀ path, s'.readFile path = s.readFile path := by
  refine ⟨fun h => ⟨h.stat, h.readFile⟩, fun ⟨hstat, hread⟩ => ⟨fun k => ?_, fun k => ?_⟩⟩
  · refine Option.ext fun record => ?_
    by_cases hk : StoreKey k
    · obtain ⟨path, hpath⟩ := hk.exists_path
      rw [hs'.get_directory_iff hpath, hs.get_directory_iff hpath, hstat]
    · exact iff_of_false (fun h => hk (hs'.directory k record h).1)
        fun h => hk (hs.directory k record h).1
  · refine Option.ext fun record => ?_
    by_cases hk : StoreKey k
    · obtain ⟨path, hpath⟩ := hk.exists_path
      rw [hs'.get_file_iff hpath, hs.get_file_iff hpath, hstat, hread]
    · exact iff_of_false (fun h => hk (hs'.file k record h).1) fun h => hk (hs.file k record h).1

/-- Whatever has happened to two stores, what there is to be read tells their trees apart. -/
theorem same_iff_of_reach {engine' : Base64Engine} {clock clock' : Clock}
    {snapshot snapshot' : Option (Option SnapshotObject)} {start start' : Store}
    (hstart : newStore engine clock snapshot = .ok start) (hreach : Reach (stepOp engine) start s)
    (hstart' : newStore engine' clock' snapshot' = .ok start')
    (hreach' : Reach (stepOp engine') start' s') :
    s.Same s' ↔
      (∀ path, s'.stat path = s.stat path) ∧ ∀ path, s'.readFile path = s.readFile path :=
  (sound_of_reach hstart hreach).same_iff (sound_of_reach hstart' hreach')

end

/-- A store with one file. -/
def oneFile : Store :=
  (empty 0).stepOp .buffer ⟨fun _ => some 0, .writeFile "a".toList (.bytes [1])⟩

theorem same_iff_of_reach_oneFile :
    (empty 0).Same oneFile ↔
      (∀ path, oneFile.stat path = (empty 0).stat path) ∧
        ∀ path, oneFile.readFile path = (empty 0).readFile path :=
  have hempty : newStore .buffer (fun _ => some 0) none = .ok (empty 0) := rfl
  same_iff_of_reach hempty .start hempty (reach_step (stepOp .buffer) (empty 0) _)

theorem isTree_of_reach_oneFile :
    oneFile.IsTree ∧ ∀ o fault, (oneFile.callOp .buffer o).1 = .error fault →
      ¬oneFile.Interrupted o.clock o.op → oneFile.stepOp .buffer o = oneFile :=
  isTree_of_reach (show newStore .buffer (fun _ => some 0) none = .ok (empty 0) from rfl)
    (reach_step (stepOp .buffer) (empty 0) _)

/-- The root is spelled without a slash behind it, and a renaming that gets no time from the clock
has taken the file away. -/
theorem not_isTree_oneFile :
    newStore .buffer (fun _ => some 0) none = .ok (empty 0) ∧
      Reach (stepOp .buffer) (empty 0) oneFile ∧
      (oneFile.directories.get [] = some ⟨0, "/workspace".toList⟩ ∧
        "/workspace".toList ≠ "/workspace/".toList ++ []) ∧
      (oneFile.callOp .buffer ⟨fun _ => none, .rename "a".toList "b".toList⟩).1 =
        .error (.workspace ⟨.invalidSnapshot, "workspace timestamp is invalid"⟩) ∧
      oneFile.files.has "a".toList = true ∧
      (oneFile.stepOp .buffer ⟨fun _ => none, .rename "a".toList "b".toList⟩).files.has
        "a".toList = false := by
  refine ⟨rfl, reach_step _ _ _, ?_, ?_, ?_, ?_⟩
  all_goals decide

end Store

end WasmHost

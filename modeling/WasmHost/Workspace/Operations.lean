import WasmHost.Lib.Run
import WasmHost.Workspace.Store

/-!
# The operations of the memory store

The transition system of a `MemoryBrowserWorkspaceStore`: what its calls do to the tree, at the
times its clock reports. Reading changes nothing, and a call that rejects leaves the store as it
was: every check stands before the first change, and in a valid store a recursive creation meets a
file before its first new directory.

* `Store.valid_of_reach`: the store stays a tree whose records spell their keys.
-/

namespace WasmHost

open OrdMap SepPath

/-- A call that changes the store, with its arguments. -/
inductive StoreCall
  | writeFile (path : Text) (content : Bytes)
  | deleteFile (path : Text)
  | createDirectory (path : Text) (recursive : Bool)
  | deleteDirectory (path : Text) (recursive : Bool)
  | rename (fromPath toPath : Text)
  | importSnapshot (snapshot : Snapshot)

/-- A call with the time it is made at. -/
structure TimedCall where
  now : ℕ
  call : StoreCall

namespace Store

variable (s : Store) {k : Text}

/-- The store after a call that succeeds. -/
def perform (c : TimedCall) : Except WorkspaceError Store :=
  match c.call with
  | .writeFile path content => (s.writeFile c.now path content).map Prod.fst
  | .deleteFile path => s.deleteFile path
  | .createDirectory path recursive => (s.createDirectory c.now path recursive).map Prod.fst
  | .deleteDirectory path recursive => s.deleteDirectory path recursive
  | .rename fromPath toPath => s.rename c.now fromPath toPath
  | .importSnapshot snapshot => loadSnapshot c.now snapshot

/-- The store after a call. -/
def step (c : TimedCall) : Store :=
  match s.perform c with
  | .ok store => store
  | .error _ => s

/-! ### Keys and their directories -/

theorem parentPath_joinKey {base part : Text} (hpart : '/' ∉ part) :
    parentPath (joinKey base part) = base := by
  unfold joinKey
  split
  next hbase =>
    rw [parentPath, parent?_eq_none_iff.2 hpart, hbase]
    rfl
  · exact parentPath_of_parent? (parent?_append base hpart)

/-- What holds a moved entry is moved with it. -/
theorem parentPath_rebase {source target : Text} (h : SepPath.Below '/' source k) :
    SepPath.AtOrBelow '/' source (parentPath k) ∧
      parentPath (rebase source target k) = rebase source target (parentPath k) := by
  obtain ⟨parent, hparent, hat⟩ := exists_parent?_of_below h
  rw [parentPath_of_parent? hparent]
  refine ⟨hat, parentPath_of_parent? ?_⟩
  obtain ⟨name, rfl, hname⟩ := parent?_eq_some_iff.1 hparent
  rcases hat with rfl | hbelow
  · rw [rebase_append, rebase_self]
    exact parent?_append target hname
  · obtain ⟨rest, rfl⟩ := below_iff.1 hbelow
    rw [List.append_assoc, List.cons_append, rebase_append, rebase_append]
    exact parent?_eq_some_iff.2 ⟨name, by simp, hname⟩

/-- An entry whose directory lies at or below another lies below that one. -/
theorem below_of_parentPath {p : Text} (hp : p ≠ []) (h : SepPath.AtOrBelow '/' p (parentPath k)) :
    SepPath.Below '/' p k := by
  cases hparent : parent? '/' k with
  | none =>
    have hnil : parentPath k = [] := by
      rw [parentPath, hparent]
      rfl
    rw [hnil] at h
    rcases h with h | h
    · exact absurd h.symm hp
    · exact absurd h.length_lt (Nat.not_lt_zero _)
  | some =>
    rw [parentPath_of_parent? hparent] at h
    exact h.trans_below (below_of_parent? hparent)

theorem requireParentDirectory_eq_ok_iff {s : Store} {path : Text} :
    s.requireParentDirectory path = .ok () ↔
      s.files.has (parentPath path) = false ∧ s.directories.has (parentPath path) = true := by
  unfold requireParentDirectory
  split
  next h => simp [h]
  next h =>
    split
    next h' => simp [h']
    next h' => simpa [h] using h'

/-! ### Each call keeps a valid store valid -/

namespace Valid

variable {s : Store} (hs : s.Valid) {stat : WorkspaceStat} {recursive : Bool} {target source : Text}
include hs

variable {k path : Text} {now : ℕ} {store : Store}

theorem set_file (hdir : s.directories.has k = false)
    (hparent : s.directories.has (parentPath k) = true) (content : Bytes) (now : ℕ) :
    Valid { s with files := s.files.set k ⟨content, now, workspacePath k⟩ } := by
  refine ⟨hs.root, fun j hj => ?_, fun j hj => ?_, hs.directoryParent, fun j record hj => ?_,
    hs.directoryPath⟩
  · by_cases hjk : j = k
    · rwa [hjk]
    · exact hs.disjoint j (by simpa [hjk] using hj)
  · by_cases hjk : j = k
    · rwa [hjk]
    · exact hs.fileParent j (by simpa [hjk] using hj)
  · rw [get_set] at hj
    split at hj
    next hjk => rw [← Option.some.inj hj, hjk]
    · exact hs.filePath j record hj

theorem set_directory (hfile : s.files.has k = false)
    (hparent : s.directories.has (parentPath k) = true) (now : ℕ) :
    Valid { s with directories := s.directories.set k ⟨now, workspacePath k⟩ } := by
  refine ⟨by simp [hs.root], fun j hj => ?_, fun j hj => ?_, fun j hj => ?_, hs.filePath,
    fun j record hj => ?_⟩
  · have hjk : j ≠ k := by
      rintro rfl
      simp [hfile] at hj
    simpa [hjk] using hs.disjoint j hj
  · simp [hs.fileParent j hj]
  · by_cases hjk : j = k
    · simp [hjk, hparent]
    · simp [hs.directoryParent j (by simpa [hjk] using hj)]
  · rw [get_set] at hj
    split at hj
    next hjk => rw [← Option.some.inj hj, hjk]
    · exact hs.directoryPath j record hj

theorem delete_file (k : Text) : Valid { s with files := s.files.delete k } := by
  have hold : ∀ j, (s.files.delete k).has j = true → s.files.has j = true := by
    intro j hj
    simp only [has_delete, Bool.and_eq_true] at hj
    exact hj.2
  refine ⟨hs.root, fun j hj => hs.disjoint j (hold j hj), fun j hj => hs.fileParent j (hold j hj),
    hs.directoryParent, fun j record hj => ?_, hs.directoryPath⟩
  rw [get_delete] at hj
  split at hj
  · cases hj
  · exact hs.filePath j record hj

/-- Without a directory and everything below it the rest is still a tree. -/
theorem deleteDirectoryTree (hpath : path ≠ []) : (s.deleteDirectoryTree path).Valid := by
  have hkept : ∀ k, (!(k = path || isChildPath path k)) = true ↔ ¬SepPath.AtOrBelow '/' path k := by
    intro k
    simp [isChildPath, hpath, SepPath.AtOrBelow]
  have hparent : ∀ k, ¬SepPath.AtOrBelow '/' path k → ¬SepPath.AtOrBelow '/' path (parentPath k) :=
    fun k hk hat => hk (below_of_parentPath hpath hat).atOrBelow
  have hroot : ¬SepPath.AtOrBelow '/' path [] := by
    rintro (h | h)
    · exact hpath h.symm
    · exact absurd h.length_lt (Nat.not_lt_zero _)
  unfold Store.deleteDirectoryTree
  refine ⟨?_, fun k hk => ?_, fun k hk => ?_, fun k hk => ?_, fun k record hk => ?_,
    fun k record hk => ?_⟩
  all_goals simp only [has_filterKeys, Bool.and_eq_true, hkept] at *
  · exact ⟨hroot, hs.root⟩
  · rw [hs.disjoint k hk.2, Bool.and_false]
  · exact ⟨hparent k hk.1, hs.fileParent k hk.2⟩
  · exact ⟨hparent k hk.1, hs.directoryParent k hk.2⟩
  · rw [get_filterKeys] at hk
    split at hk
    · exact hs.filePath k record hk
    · cases hk
  · rw [get_filterKeys] at hk
    split at hk
    · exact hs.directoryPath k record hk
    · cases hk

theorem writeFile {content : Bytes} (h : s.writeFile now path content = .ok (store, stat)) :
    store.Valid := by
  obtain ⟨key, -, h⟩ := Except.bind_eq_ok_iff.1 h
  split at h
  · cases h
  split at h
  · cases h
  next hdir =>
    obtain ⟨_, hparent, h⟩ := Except.bind_eq_ok_iff.1 h
    obtain ⟨rfl, -⟩ := Prod.mk.inj (Except.ok.inj h)
    exact hs.set_file (by simpa using hdir) (requireParentDirectory_eq_ok_iff.1 hparent).2 _ _

theorem deleteFile (h : s.deleteFile path = .ok store) : store.Valid := by
  obtain ⟨key, -, h⟩ := Except.bind_eq_ok_iff.1 h
  split at h
  · exact Except.ok.inj h ▸ hs.delete_file key
  · split at h <;> cases h

theorem deleteDirectory (h : s.deleteDirectory path recursive = .ok store) : store.Valid := by
  obtain ⟨key, -, h⟩ := Except.bind_eq_ok_iff.1 h
  split at h
  · cases h
  next hkey =>
    split at h
    · cases h
    split at h
    · cases h
    · exact Except.ok.inj h ▸ hs.deleteDirectoryTree hkey

omit hs in
/-- Every directory on the way is there after the loop, and each one was made in its parent. -/
theorem ensureDirectoryFrom {parts : List Text} (hparts : ∀ part ∈ parts, part ≠ [] ∧ '/' ∉ part)
    {current : Text} {s : Store} {directories directories' : OrdMap Text StoreDirectory}
    (hdirectories : Valid ⟨directories, s.files⟩) (hcurrent : directories.has current = true)
    (h : s.ensureDirectoryFrom now current parts directories = .ok directories') :
    Valid ⟨directories', s.files⟩ := by
  induction parts generalizing current directories with
  | nil => exact Except.ok.inj h ▸ hdirectories
  | cons part parts ih =>
    obtain ⟨hpart, hslash⟩ := hparts part List.mem_cons_self
    have hrest := fun p hp => hparts p (List.mem_cons_of_mem _ hp)
    unfold Store.ensureDirectoryFrom at h
    dsimp only at h
    split at h
    · cases h
    next hfile =>
      split at h
      next hhas => exact ih hrest hdirectories hhas h
      have hne : joinKey current part ≠ [] := by
        unfold joinKey
        split
        · exact hpart
        · exact List.append_ne_nil_of_right_ne_nil _ (List.cons_ne_nil _ _)
      have hrecord : directoryRecord (workspacePreopenPath ++ '/' :: joinKey current part) now =
          ⟨now, workspacePath (joinKey current part)⟩ := by
        rw [← directoryRecord_workspacePath]
        simp [workspacePath, hne]
      have hset := hdirectories.set_directory (k := joinKey current part) (by simpa using hfile)
        (by rw [parentPath_joinKey hslash]; exact hcurrent) now
      rw [hrecord] at h
      exact ih hrest hset (by simp) h

theorem createDirectory (h : s.createDirectory now path recursive = .ok (store, stat)) :
    store.Valid := by
  obtain ⟨key, -, h⟩ := Except.bind_eq_ok_iff.1 h
  split at h
  · exact (Prod.mk.inj (Except.ok.inj h)).1 ▸ hs
  split at h
  · cases h
  next hfile =>
    split at h
    · obtain ⟨store', hstore, h⟩ := Except.bind_eq_ok_iff.1 h
      obtain ⟨directories, hdirectories, hstore⟩ := Except.bind_eq_ok_iff.1 hstore
      obtain ⟨rfl, -⟩ := Prod.mk.inj (Except.ok.inj h)
      rw [← Except.ok.inj hstore]
      refine ensureDirectoryFrom (fun part hpart => ?_) hs hs.root hdirectories
      obtain ⟨hmem, hne⟩ := List.mem_filter.1 hpart
      exact ⟨by simpa using hne, not_mem_of_mem_splitOn hmem⟩
    · obtain ⟨_, hparent, h⟩ := Except.bind_eq_ok_iff.1 h
      split at h
      · cases h
      obtain ⟨rfl, -⟩ := Prod.mk.inj (Except.ok.inj h)
      rw [directoryRecord_workspacePath]
      exact hs.set_directory (by simpa using hfile) (requireParentDirectory_eq_ok_iff.1 hparent).2 _

/-- Nothing is at or below a free place. -/
theorem not_atOrBelow_of_free
    (hfree : s.directories.has target = false ∧ s.files.has target = false)
    (hk : s.directories.has k = true ∨ s.files.has k = true) : ¬SepPath.AtOrBelow '/' target k := by
  rintro (rfl | hbelow)
  · simp [hfree] at hk
  · simp [hs.has_of_below hbelow hk] at hfree

/-- Files move as directories do, since the source is no file. -/
theorem fileKey_eq_move (hdir : s.directories.has source = true) (target : Text)
    (hk : s.files.has k = true) :
    (if SepPath.Below '/' source k then rebase source target k else k) =
      move '/' source target k := by
  have hks : k ≠ source := by
    rintro rfl
    rw [hs.disjoint k hk] at hdir
    cases hdir
  have hiff : SepPath.AtOrBelow '/' source k ↔ SepPath.Below '/' source k := by
    simp [SepPath.AtOrBelow, hks]
  by_cases hbelow : SepPath.Below '/' source k
  · rw [if_pos hbelow, move_of_atOrBelow target hbelow.atOrBelow]
  · rw [if_neg hbelow, move_of_not_atOrBelow target (mt hiff.1 hbelow)]

/-- A directory moves with everything below it to a free place outside of it. -/
theorem moveDirectory (hsource : source ≠ []) (htarget : target ≠ [])
    (hdir : s.directories.has source = true) (hinside : ¬SepPath.Below '/' source target)
    (hparent : s.directories.has (parentPath target) = true)
    (hfree : s.directories.has target = false ∧ s.files.has target = false) (now : ℕ) :
    (s.moveDirectory now source target).Valid := by
  have hne : source ≠ target := by
    rintro rfl
    simp [hdir] at hfree
  have hroom : ∀ k, s.directories.has k = true ∨ s.files.has k = true →
      ¬SepPath.AtOrBelow '/' target k := fun _ hk => hs.not_atOrBelow_of_free hfree hk
  have hfileKey : ∀ k, s.files.has k = true →
      (if SepPath.Below '/' source k then rebase source target k else k) =
        move '/' source target k := fun _ hk => hs.fileKey_eq_move hdir target hk
  have hinj : ∀ k k', (s.directories.has k = true ∨ s.files.has k = true) →
      (s.directories.has k' = true ∨ s.files.has k' = true) →
      move '/' source target k = move '/' source target k' → k = k' :=
    fun k k' hk hk' => move_inj (.inr (hroom k hk)) (.inr (hroom k' hk'))
  have hdirs : ∀ j, (s.moveDirectory now source target).directories.has j = true ↔
      ∃ k, s.directories.has k = true ∧ move '/' source target k = j :=
    fun j => has_rekey ..
  have hfiles : ∀ j, (s.moveDirectory now source target).files.has j = true ↔
      ∃ k, s.files.has k = true ∧ move '/' source target k = j := by
    intro j
    refine (has_rekey ..).trans (exists_congr fun k => and_congr_right fun hk => ?_)
    rw [hfileKey k hk]
  have hmoved : ∀ k, (s.directories.has k = true ∨ s.files.has k = true) →
      s.directories.has (parentPath k) = true →
      (s.moveDirectory now source target).directories.has
        (parentPath (move '/' source target k)) = true := by
    intro k hk hkparent
    rw [hdirs]
    by_cases hat : SepPath.AtOrBelow '/' source k
    · rw [move_of_atOrBelow target hat]
      rcases hat with rfl | hbelow
      · -- the moved directory itself gets the parent of its new place
        rw [rebase_self]
        refine ⟨parentPath target, hparent, move_of_not_atOrBelow target fun hat => ?_⟩
        exact hinside (below_of_parentPath hsource hat)
      · obtain ⟨hparentAt, hrebase⟩ : SepPath.AtOrBelow '/' source (parentPath k) ∧
            parentPath (rebase source target k) =
              rebase source target (parentPath k) := parentPath_rebase hbelow
        exact ⟨parentPath k, hkparent, by
          rw [hrebase, move_of_atOrBelow target hparentAt]⟩
    · rw [move_of_not_atOrBelow target hat]
      refine ⟨parentPath k, hkparent, move_of_not_atOrBelow target fun hparentAt => hat ?_⟩
      exact (below_of_parentPath hsource hparentAt).atOrBelow
  refine ⟨?_, fun j hj => ?_, fun j hj => ?_, fun j hj => ?_, fun j record hj => ?_,
    fun j record hj => ?_⟩
  · refine (hdirs []).2 ⟨[], hs.root, move_of_not_atOrBelow target ?_⟩
    rintro (h | h)
    · exact hsource h.symm
    · exact absurd h.length_lt (Nat.not_lt_zero _)
  · obtain ⟨k, hk, rfl⟩ := (hfiles j).1 hj
    by_contra hdirectory
    obtain ⟨k', hk', heq⟩ := (hdirs _).1 (by simpa using hdirectory)
    obtain rfl := hinj k' k (.inl hk') (.inr hk) heq
    simp [hs.disjoint k' hk] at hk'
  · obtain ⟨k, hk, rfl⟩ := (hfiles j).1 hj
    exact hmoved k (.inr hk) (hs.fileParent k hk)
  · obtain ⟨k, hk, rfl⟩ := (hdirs j).1 hj
    exact hmoved k (.inl hk) (hs.directoryParent k hk)
  · obtain ⟨k, old, hk, hkey, rfl⟩ := exists_of_get_rekey hj
    by_cases hbelow : SepPath.Below '/' source k
    · rw [if_pos hbelow] at hkey
      have hjne : j ≠ [] := by
        rintro rfl
        have htarget : SepPath.Below '/' target (rebase source target k) :=
          rebase_below hbelow
        have hlt := htarget.length_lt
        rw [hkey] at hlt
        exact absurd hlt (Nat.not_lt_zero _)
      simp [hbelow, hkey, workspacePath, hjne]
    · rw [if_neg hbelow] at hkey
      simp only [hbelow, if_false]
      rw [hs.filePath k old hk, hkey]
  · obtain ⟨k, old, hk, hkey, rfl⟩ := exists_of_get_rekey hj
    by_cases hat : SepPath.AtOrBelow '/' source k
    · rw [move_of_atOrBelow target hat] at hkey
      simp [hat, hkey]
    · rw [move_of_not_atOrBelow target hat] at hkey
      simp only [hat, if_false]
      rw [hs.directoryPath k old hk, hkey]

theorem rename {fromPath toPath : Text} (h : s.rename now fromPath toPath = .ok store) :
    store.Valid := by
  obtain ⟨source, -, h⟩ := Except.bind_eq_ok_iff.1 h
  obtain ⟨target, -, h⟩ := Except.bind_eq_ok_iff.1 h
  split at h
  · cases h
  next hnonempty =>
    rw [not_or] at hnonempty
    obtain ⟨_, hparent, h⟩ := Except.bind_eq_ok_iff.1 h
    obtain ⟨-, hparentDir⟩ := requireParentDirectory_eq_ok_iff.1 hparent
    split at h
    · cases h
    next hfree =>
      rw [not_or] at hfree
      split at h
      next record hrecord =>
        rw [← Except.ok.inj h]
        exact (hs.delete_file source).set_file
          (by simpa using hfree.2) hparentDir record.content now
      · split at h
        next hdir =>
          unfold Store.renameDirectory at h
          split at h
          · exact Except.ok.inj h ▸ hs
          split at h
          · cases h
          next hinside =>
            rw [← Except.ok.inj h]
            refine hs.moveDirectory hnonempty.1 hnonempty.2 hdir ?_ hparentDir
              ⟨by simpa using hfree.2, by simpa using hfree.1⟩ now
            simpa [isChildPath, hnonempty.1] using hinside
        · cases h

theorem perform {c : TimedCall} (h : s.perform c = .ok store) : store.Valid := by
  obtain ⟨now, call⟩ := c
  have hfst : ∀ {stat : Except WorkspaceError (Store × WorkspaceStat)},
      stat.map Prod.fst = .ok store → ∃ status, stat = .ok (store, status) := by
    rintro (e | ⟨store', status⟩) hmap
    · cases hmap
    · exact ⟨status, congrArg (fun t => Except.ok (t, status)) (Except.ok.inj hmap)⟩
  cases call with
  | writeFile =>
    obtain ⟨stat, hstat⟩ := hfst h
    exact hs.writeFile hstat
  | deleteFile => exact hs.deleteFile h
  | createDirectory =>
    obtain ⟨stat, hstat⟩ := hfst h
    exact hs.createDirectory hstat
  | deleteDirectory => exact hs.deleteDirectory h
  | rename => exact hs.rename h
  | importSnapshot => exact valid_loadSnapshot h

theorem step (c : TimedCall) : (s.step c).Valid := by
  unfold Store.step
  split
  next store hstore => exact hs.perform hstore
  · exact hs

end Valid

theorem valid_empty (now : ℕ) : (empty now).Valid := by
  have hget : ∀ {k : Text} {record : StoreDirectory},
      (OrdMap.empty.set [] (directoryRecord [] now) : OrdMap Text StoreDirectory).get k =
        some record → k = [] ∧ record = directoryRecord [] now := by
    intro k record hk
    rw [get_set] at hk
    split at hk
    next h => exact ⟨h, (Option.some.inj hk).symm⟩
    · cases hk
  refine ⟨by simp [empty], fun k hk => ?_, fun k hk => ?_, fun k hk => ?_, fun k record hk => ?_,
    fun k record hk => ?_⟩
  · simp [empty] at hk
  · simp [empty] at hk
  · obtain ⟨record, hrecord⟩ := (has_iff _ _).1 hk
    rw [(hget hrecord).1]
    simp [empty]
  · cases hk
  · obtain ⟨rfl, rfl⟩ := hget hk
    rfl

/-- Whatever is done to a store, it stays valid. -/
theorem valid_of_reach {now : ℕ} {s : Store} (h : Reach step (empty now) s) : s.Valid :=
  h.invariant (valid_empty now) fun _ c hs _ => hs.step c

end Store

end WasmHost

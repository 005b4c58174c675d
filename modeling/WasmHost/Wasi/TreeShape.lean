import WasmHost.Wasi.Boot
import WasmHost.Wasi.ChildSnapshot

/-!
# The shape of the trees

When a path call keeps a well-formed mount well formed. On the abstract mounts the answer is
`Mount.wellFormed_apply_iff`: an allowed edit breaks the shape only by taking the root away, or by
moving a directory with entries onto it. The calls inherit it through `World.Edits`, as long as
the descriptors they start from have canonical paths.

* `World.keepsShape_iff`: which calls keep a well-formed mount well formed.
* `System.canonicalBases_of_run`: the descriptors have canonical paths in every run that moves no
  directory onto a root.
* `System.treeShape`: both together.
-/

namespace WasmHost

open OrdMap SepPath

namespace Mount

variable {β : Type} {m : Mount β}

/-- The root is neither removed nor moved, and no directory with entries is moved onto it. -/
def Edit.SparesRoot (m : Mount β) : Edit β → Prop
  | .removeDir path => path ≠ []
  | .renameDir source target => source ≠ [] ∧ (target = [] → m.pathHasChildren source = false)
  | _ => True

namespace WellFormed

variable (hm : m.WellFormed)
include hm

/-- A key of a well-formed mount is not at or below the root as keys are compared, unless it is
the root. -/
theorem not_atOrBelow_root {k : Text} (hne : k ≠ [])
    (hk : m.files.has k = true ∨ m.dirs.has k = true) : ¬SepPath.AtOrBelow '/' [] k := by
  have hkey : CanonicalKey k := by
    rcases hk with hk | hk
    · exact hm.canonical_file k hk
    · exact (hm.canonical_dir k hk).resolve_left hne
  rintro (rfl | hbelow)
  · exact hne rfl
  · -- below the root as a key would mean a leading separator
    obtain ⟨r, rfl⟩ := below_iff.1 hbelow
    exact hkey.not_slash_cons

/-- A directory without entries may be moved onto the root: the root takes its place. -/
theorem renameDir_root {source : Text} (hsource : source ≠ [])
    (hempty : m.pathHasChildren source = false) (h : m.Allows (.renameDir source [])) :
    (m.apply (.renameDir source [])).WellFormed := by
  obtain ⟨hnotfile, hexists⟩ := (m.pathKind_eq_directory_iff source).1
    ((m.checkRename_eq_ok_iff source [] .directory).1 h.2).1
  have hdir : m.dirs.has source = true := hexists.resolve_right (by simp [hempty])
  have hchildren := (m.pathHasChildren_eq_false_iff source).1 hempty
  -- only the source itself moves
  have hstay : ∀ k, k ≠ source → m.files.has k = true ∨ m.dirs.has k = true →
      SepPath.move '/' source [] k = k := by
    intro k hne hk
    refine move_of_not_atOrBelow [] ?_
    rintro (heq | hbelow)
    · exact hne heq
    · obtain ⟨hd, hf⟩ := hchildren k hbelow
      simp [hd, hf] at hk
  have hmoved : SepPath.move '/' source [] source = [] := by
    rw [move_of_atOrBelow [] (atOrBelow_self source), rebase_self]
  have hfiles :
      ∀ k, (m.apply (.renameDir source [])).files.has k = true → m.files.has k = true := by
    intro k hk
    obtain ⟨j, hj, rfl⟩ := (has_rekey _ _ _ _).1 hk
    have hne : j ≠ source := by
      rintro rfl
      simp [hnotfile] at hj
    rwa [hstay j hne (.inl hj)]
  have hdirs : ∀ k, (m.apply (.renameDir source [])).dirs.has k = true → m.dirs.has k = true := by
    intro k hk
    obtain ⟨j, hj, rfl⟩ := (has_rekey _ _ _ _).1 hk
    simp only [has_delete, Bool.and_eq_true] at hj
    by_cases hne : j = source
    · subst hne
      rw [hmoved]
      exact hm.root
    · rw [hstay j hne (.inr hj.2)]
      exact hj.2
  refine ⟨?_, fun k hk => ?_, fun f k hf hk => ?_, fun k hk => hm.canonical_file k (hfiles k hk),
    fun k hk => hm.canonical_dir k (hdirs k hk)⟩
  · refine (has_rekey _ _ _ _).2 ⟨source, ?_, hmoved⟩
    simp [hsource, hdir]
  · by_contra hd
    have hdir' := hdirs k (by simpa using hd)
    simp [hm.disjoint k (hfiles k hk)] at hdir'
  · exact hm.leaf f k (hfiles f hf) (hk.imp (hfiles k) (hdirs k))

variable {target : Text}

/-- Moving the root leaves no root. -/
theorem has_root_renameDir_source (hne : [] ≠ target) :
    (m.apply (.renameDir [] target)).dirs.has [] = false := by
  by_contra hroot
  obtain ⟨k, hk, hmove⟩ := (has_rekey _ _ _ _).1 (Bool.not_eq_false _ ▸ hroot)
  simp only [has_delete, Bool.and_eq_true] at hk
  by_cases hk' : k = []
  · subst hk'
    rw [move_of_atOrBelow target (atOrBelow_self []), rebase_self] at hmove
    exact hne hmove.symm
  · rw [move_of_not_atOrBelow target (hm.not_atOrBelow_root hk' (.inr hk.2))] at hmove
    exact hk' hmove

theorem not_wellFormed_renameDir_source (hne : [] ≠ target) :
    ¬(m.apply (.renameDir [] target)).WellFormed := by
  intro hafter
  exact absurd hafter.root (by simp [hm.has_root_renameDir_source hne])

end WellFormed

/-- Moving a directory with entries onto the root leaves keys with a leading separator. -/
theorem not_wellFormed_renameDir_target {source : Text}
    (hchildren : m.pathHasChildren source = true) :
    ¬(m.apply (.renameDir source [])).WellFormed := by
  intro hafter
  obtain ⟨k, hbelow, hk⟩ := (m.pathHasChildren_iff source).1 hchildren
  obtain ⟨r, rfl⟩ := below_iff.1 hbelow
  have hmove : SepPath.move '/' source [] (source ++ '/' :: r) = '/' :: r := by
    rw [move_of_atOrBelow [] hbelow.atOrBelow, rebase_append]
    rfl
  rcases hk with hk | hk
  · have hkey := (hafter.canonical_dir ('/' :: r) ((has_rekey _ _ _ _).2
      ⟨_, by simp [hk], hmove⟩)).resolve_left (by simp)
    exact hkey.not_slash_cons
  · have hkey := hafter.canonical_file ('/' :: r) ((has_rekey _ _ _ _).2 ⟨_, hk, hmove⟩)
    exact hkey.not_slash_cons

/-- An allowed edit with canonical keys keeps a well-formed mount well formed exactly when it
spares the root. -/
theorem wellFormed_apply_iff (hm : m.WellFormed) {e : Edit β} (he : m.Allows e)
    (hcanonical : e.Canonical) : (m.apply e).WellFormed ↔ e.SparesRoot m := by
  constructor
  · intro hafter
    cases e with
    | removeDir =>
      rintro rfl
      have hroot := hafter.root
      simp [apply] at hroot
    | renameDir =>
      refine ⟨?_, ?_⟩
      · rintro rfl
        exact hm.not_wellFormed_renameDir_source he.1 hafter
      · rintro rfl
        by_contra hchildren
        exact not_wellFormed_renameDir_target (by simpa using hchildren) hafter
    | _ => trivial
  · intro hspares
    cases e with
    | renameDir source target =>
      by_cases htarget : target = []
      · subst htarget
        exact hm.renameDir_root hspares.1 (hspares.2 rfl) he
      · exact hm.apply he hcanonical ⟨hspares.1, htarget⟩
    | removeDir => exact hm.apply he hcanonical hspares
    | _ => exact hm.apply he hcanonical trivial

/-- An allowed edit keeps every directory that has entries, under its name or under the one it is
moved to. -/
theorem dirs_apply_of_children {e : Edit β} (he : m.Allows e) {d : Text}
    (hd : m.dirs.has d = true) (hchildren : m.pathHasChildren d = true) :
    (m.apply e).dirs.has d = true ∨ ∃ source target, e = .renameDir source target ∧
      SepPath.AtOrBelow '/' source d ∧
      (m.apply e).dirs.has (SepPath.rebase source target d) = true := by
  cases e with
  | createFile => exact .inl hd
  | createDir => exact .inl (by simp [apply, hd])
  | removeFile => exact .inl hd
  | removeDir path =>
    obtain ⟨base, hcheck⟩ := he
    have hempty := ((m.checkRemoveDirectory_eq_ok_iff base path).1 hcheck).2.2.2.2
    have hne : d ≠ path := by
      rintro rfl
      simp [hempty] at hchildren
    exact .inl (by simp [apply, hd, hne])
  | renameFile => exact .inl hd
  | renameDir source target =>
    obtain ⟨-, -, hfree⟩ := (m.checkRename_eq_ok_iff source target .directory).1 he.2
    have hne : d ≠ target := by
      rintro rfl
      rcases hfree with ⟨hkind, -⟩ | ⟨-, hempty⟩
      · simp [((m.pathKind_eq_none_iff d).1 hkind).2.2] at hchildren
      · simp [hempty rfl] at hchildren
    have hmoved : (m.apply (.renameDir source target)).dirs.has
        (SepPath.move '/' source target d) = true :=
      (has_rekey _ _ _ _).2 ⟨d, by simp [hd, hne], rfl⟩
    by_cases hat : SepPath.AtOrBelow '/' source d
    · rw [move_of_atOrBelow target hat] at hmoved
      exact .inr ⟨source, target, rfl, hat, hmoved⟩
    · rw [move_of_not_atOrBelow target hat] at hmoved
      exact .inl hmoved

end Mount

namespace World

/-! ### Canonical bases -/

/-- The path of a descriptor, if it has one, is canonical. -/
def CanonicalFile (file : OpenFile) : Prop := ∀ path, file.path = some path → CanonicalPath path

variable {w w' : World} {fd : Int} {mount : VirtualMount} {target : Text} {e : Mount.Edit ℕ}
    {c : Call}

section

variable (h : w.CanonicalBases)
include h

theorem CanonicalBases.file {file : OpenFile}
    (hfile : w.openFile fd = some file) : CanonicalFile file :=
  fun path hpath => h.openFile fd file path hfile hpath

/-- Canonical bases only depend on the working directory and the table. -/
theorem CanonicalBases.of_table (hcwd : CanonicalCwd w'.runtime.cwd)
    (htable : ∀ fd file, w'.openFile fd = some file →
      w.openFile fd = some file ∨ CanonicalFile file) : w'.CanonicalBases := by
  refine ⟨hcwd, fun fd file path hfile hpath => ?_⟩
  rcases htable fd file hfile with hold | hnew
  · exact h.openFile fd file path hold hpath
  · exact hnew path hpath

/-- Setting one descriptor to a canonical one. -/
theorem CanonicalBases.of_set {file : OpenFile} (hcwd : w'.runtime.cwd = w.runtime.cwd)
    (hset : w'.runtime.openFiles = w.runtime.openFiles.set fd file) (hnew : CanonicalFile file) :
    w'.CanonicalBases := by
  refine h.of_table (hcwd ▸ h.cwd) fun fd' file' hfile' => ?_
  rw [World.openFile, hset, get_set] at hfile'
  split at hfile'
  · exact .inr (Option.some.inj hfile' ▸ hnew)
  · exact .inl hfile'

/-- Dropping a descriptor. -/
theorem CanonicalBases.of_delete (hcwd : w'.runtime.cwd = w.runtime.cwd)
    (hdelete : w'.runtime.openFiles = w.runtime.openFiles.delete fd) : w'.CanonicalBases := by
  refine h.of_table (hcwd ▸ h.cwd) fun fd' file' hfile' => ?_
  rw [World.openFile, hdelete, get_delete] at hfile'
  split at hfile'
  · cases hfile'
  · exact .inl hfile'

/-- The same runtime has the same bases. -/
theorem CanonicalBases.of_runtime (hruntime : w'.runtime = w.runtime) :
    w'.CanonicalBases := by
  refine h.of_table (hruntime ▸ h.cwd) fun fd file hfile => .inl ?_
  rwa [World.openFile, hruntime] at hfile

end

theorem Opens.canonical {file : OpenFile} (h : w.Opens file) (hw : w.CanonicalBases) :
    CanonicalFile file := by
  rintro path hpath
  cases h with
  | directory hcanonical | mounted hcanonical | packageRoot hcanonical | readOnly hcanonical =>
    exact Option.some.inj hpath ▸ hcanonical hw

theorem Source.canonical {file : OpenFile} (h : w.Source file) (hw : w.CanonicalBases) :
    CanonicalFile file := by
  rintro path hpath
  cases h with
  | openFile hfile => exact hw.file hfile path hpath
  | stdio => cases hpath

/-- Plain effects keep the bases canonical. -/
theorem Plain.canonicalBases (h : Plain w w') (hw : w.CanonicalBases) : w'.CanonicalBases := by
  cases h with
  | quiet hq => exact hw.of_quiet hq
  | pipeBytes | content | adopt => exact hw.of_runtime rfl
  | @truncate mount key record hget => cases mount <;> exact hw.of_runtime rfl
  | opened offset hopens hoffset => exact hw.of_set rfl rfl (hopens.canonical hw)
  | closed => exact hw.of_delete rfl rfl
  | @moved fd target file hfile htarget hne =>
    have hdrop : ((w.closeReplaced target).dropOpenFile fd).CanonicalBases := hw.of_delete rfl rfl
    exact hdrop.of_set rfl rfl (hw.file hfile)
  | duplicated hsource htarget => exact hw.of_set rfl rfl (hsource.canonical hw)
  | preopened => exact hw.of_set rfl rfl fun path hpath => .inl (Option.some.inj hpath).symm
  | piped =>
    have hend : ∀ direction, CanonicalFile (pipeEnd direction w.host.pipes.next) := by
      intro direction path hpath
      cases hpath
    have hread : ((w.allocPipe.allocateDynamicFileFd firstFileFd).1.putOpenFile
        (w.allocPipe.allocateDynamicFileFd firstFileFd).2
        (pipeEnd .read w.host.pipes.next)).CanonicalBases := hw.of_set rfl rfl (hend .read)
    exact hread.of_set rfl rfl (hend .write)
  | rights rightsBase rightsInheriting hfile =>
    exact hw.of_set rfl rfl fun path hpath => hw.file hfile path hpath

theorem Plains.canonicalBases (h : Plains w w') (hw : w.CanonicalBases) : w'.CanonicalBases := by
  induction h with
  | refl => exact hw
  | tail _ hstep ih => exact hstep.canonicalBases ih

theorem canonicalPath_basePathForRight (hw : w.CanonicalBases) {isDirectory : OpenFile → Bool}
    {right : Rights} {base : Text} (h : w.basePathForRight fd isDirectory right = .ok base) :
    CanonicalPath base := by
  unfold basePathForRight at h
  split at h
  next file hfile =>
    split at h
    · split at h
      · cases h
      next path hpath =>
        split at h
        · exact Except.ok.inj h ▸ hw.file hfile path hpath
        · cases h
    · cases h
  · cases h

/-- The keys of a rename are canonical. -/
theorem canonicalPath_renameKeys (hw : w.CanonicalBases) {oldFd newFd : Int}
    {oldPath newPath : Text} {source : Text}
    (h : w.renameKeys oldFd oldPath newFd newPath = .ok (mount, source, target)) :
    CanonicalPath source ∧ CanonicalPath target := by
  have hworkspace : ∀ {fd : Int} {path : Text} {right : Rights} {base : Text},
      w.workspaceBasePathForRightOrPathRequest fd path right = some (.ok base) →
      CanonicalPath base := by
    intro fd path right base hbase
    unfold workspaceBasePathForRightOrPathRequest at hbase
    split at hbase
    · cases hbase
    split at hbase
    next b hb =>
      obtain rfl := Except.ok.inj (Option.some.inj hbase)
      unfold workspaceBasePathForRight at hb
      split at hb
      · split at hb
        · exact .inl (Except.ok.inj hb).symm
        · cases hb
      · exact canonicalPath_basePathForRight hw hb
    · split at hbase
      · cases hbase
      obtain ⟨b, hb, heq⟩ := Option.map_eq_some_iff.1 hbase
      exact Except.ok.inj heq ▸ canonicalPath_workspaceCwdBasePath hw hb
  have hscratch : ∀ {fd : Int} {right : Rights} {base : Text},
      w.scratchBasePathForRight fd right = .ok base → CanonicalPath base := by
    intro fd right base hbase
    unfold scratchBasePathForRight at hbase
    split at hbase
    · exact .inl (Except.ok.inj hbase).symm
    · exact canonicalPath_basePathForRight hw hbase
  unfold renameKeys at h
  split at h
  next keys hkeys =>
    obtain ⟨rfl, rfl⟩ := Prod.mk.inj (Except.ok.inj h)
    unfold workspaceRenameKeys at hkeys
    split at hkeys
    · cases hkeys
    split at hkeys
    · cases hkeys
    · cases hkeys
    · cases hkeys
    next sourceBase targetBase hsource htarget =>
      split at hkeys
      · cases hkeys
      next key hkey =>
        split at hkeys
        · cases hkeys
        next key' hkey' =>
          split at hkeys
          · cases hkeys
          obtain ⟨rfl, rfl⟩ := Prod.mk.inj (Except.ok.inj (Option.some.inj hkeys))
          exact ⟨canonicalPath_resolveIn (hworkspace hsource) hkey,
            canonicalPath_resolveIn (hworkspace htarget) hkey'⟩
    · cases hkeys
  · cases h
  · split at h
    next keys hkeys =>
      obtain ⟨rfl, rfl⟩ := Prod.mk.inj (Except.ok.inj h)
      unfold scratchRenameKeys at hkeys
      split at hkeys
      · cases hkeys
      next sourceBase hsource =>
        split at hkeys
        · cases hkeys
        next targetBase htarget =>
          split at hkeys
          · cases hkeys
          next key hkey =>
            split at hkeys
            · cases hkeys
            next key' hkey' =>
              obtain ⟨rfl, rfl⟩ := Prod.mk.inj (Except.ok.inj hkeys)
              exact ⟨canonicalPath_resolveIn (hscratch hsource) hkey,
                canonicalPath_resolveIn (hscratch htarget) hkey'⟩
    · cases h

/-- Every key an accepted edit names is canonical. -/
theorem Edits.canonical (h : w.Edits c mount e) (hw : w.CanonicalBases) : e.Canonical := by
  cases h with
  | createFile hbase hkey | createFile2 hbase hkey =>
    exact canonicalPath_resolveIn (canonicalPath_openBase hw hbase) hkey
  | createDir hbase hkey | removeFile hbase hkey | removeDir hbase hkey =>
    exact canonicalPath_resolveIn (canonicalPath_mutableBase hw hbase) hkey
  | renameFile hkeys | renameDir hkeys => exact canonicalPath_renameKeys hw hkeys

/-! ### Edits and descriptors -/

theorem canonicalFile_detached {file : OpenFile} (h : CanonicalFile file)
    (names : OpenFile → Bool) (path : Text) : CanonicalFile (detached names path file) := by
  unfold detached
  split
  · exact fun p hp => absurd hp (by simp)
  · exact h

theorem canonicalFile_followRecord {file : OpenFile} (h : CanonicalFile file) (record : ℕ)
    (replaced : Option ℕ) (htarget : CanonicalPath target) :
    CanonicalFile (followRecord record replaced target file) := by
  unfold followRecord
  split
  · exact h
  split
  · exact fun p hp => Option.some.inj hp ▸ htarget
  split
  · exact fun p hp => absurd hp (by simp)
  · exact h

/-- Following a directory to a place other than the root. -/
theorem canonicalFile_followPath {file : OpenFile} (h : CanonicalFile file) (source : Text)
    (htarget : CanonicalKey target) : CanonicalFile (followPath source target file) := by
  unfold followPath
  split
  next path hpath =>
    split
    next hat =>
      intro p hp
      obtain rfl := Option.some.inj hp
      rcases hat with rfl | hbelow
      · rw [rebase_self]
        exact htarget.canonicalPath
      · have hkey : CanonicalKey path := (h path hpath).resolve_left fun hnil => by
          rw [hnil] at hbelow
          exact absurd hbelow.length_lt (Nat.not_lt_zero _)
        exact (hkey.rebase htarget hbelow.atOrBelow).canonicalPath
    · exact h
  · exact h

theorem canonicalFile_follow (w : World) {file : OpenFile} (h : CanonicalFile file)
    (mount : VirtualMount) (he : e.Canonical) (hroot : ∀ source, e ≠ .renameDir source []) :
    CanonicalFile (w.follow mount e file) := by
  cases mount with
  | workspace =>
    cases e with
    | removeFile path | removeDir path => exact canonicalFile_detached h _ path
    | renameFile =>
      simp only [follow]
      split
      · exact canonicalFile_followRecord h _ _ he.2
      · exact h
    | renameDir source target =>
      have htarget : CanonicalKey target := he.2.resolve_left fun hnil => hroot source (hnil ▸ rfl)
      simp only [follow]
      split
      · exact canonicalFile_followPath (canonicalFile_detached h _ _) source htarget
      · exact h
    | createFile | createDir => exact h
  | scratch =>
    cases e with
    | renameFile => exact canonicalFile_followRecord h _ _ he.2
    | renameDir source target =>
      have htarget : CanonicalKey target := he.2.resolve_left fun hnil => hroot source (hnil ▸ rfl)
      exact canonicalFile_followPath (canonicalFile_detached h _ _) source htarget
    | removeFile | removeDir | createFile | createDir => exact h

variable (hw : w.CanonicalBases)
include hw

theorem canonicalBases_perform (mount : VirtualMount) (he : e.Canonical)
    (hroot : ∀ source, e ≠ .renameDir source []) : (w.perform mount e).CanonicalBases := by
  refine hw.of_table ((framed_perform w mount e).cwd ▸ hw.cwd) fun fd file hfile => .inr ?_
  rw [World.openFile, openFiles_perform, get_mapVals] at hfile
  obtain ⟨old, hold, rfl⟩ := Option.map_eq_some_iff.1 hfile
  exact canonicalFile_follow w (hw.file hold) mount he hroot

/-! ### Calls -/

/-- The call makes no edit that moves a directory onto a root. -/
def KeepsRootsApart (w : World) (c : Call) : Prop :=
  ∀ mount source, ¬w.Edits c mount (.renameDir source [])

theorem canonicalBases_call (hc : w.KeepsRootsApart c) :
    (w.call c).CanonicalBases := by
  rcases w.call_effects c with h | ⟨mount, e, he, h⟩
  · exact h.canonicalBases hw
  · refine h.canonicalBases (canonicalBases_perform hw mount (he.canonical hw) ?_)
    rintro source rfl
    exact hc mount source he

theorem canonicalBases_childSnapshot (snapshot : SnapshotTree) :
    (w.importWasiWorkspaceSnapshot snapshot).rebindOpenWorkspaceFiles.CanonicalBases := by
  refine childSnapshot_induction (P := CanonicalBases) (fun w' h => hw.of_runtime h.runtime)
    (fun w' path h => h.of_runtime rfl) fun w' fd file old record writable offset hfile _ h => ?_
  exact h.of_set rfl rfl fun p hp => h.file hfile p hp

/-- A call keeps the shape of a mount: it stays well formed, and a directory with entries stays or
is moved. -/
structure KeepsShape (w : World) (mount : VirtualMount) (c : Call) : Prop where
  wellFormed : ((w.call c).mountOf mount).WellFormed
  children : ∀ d, (w.mountOf mount).dirs.has d = true →
    (w.mountOf mount).pathHasChildren d = true →
    ((w.call c).mountOf mount).dirs.has d = true ∨
      ∃ source target, w.Edits c mount (.renameDir source target) ∧
        SepPath.AtOrBelow '/' source d ∧
        ((w.call c).mountOf mount).dirs.has (SepPath.rebase source target d) = true

/-- An edit of the call in the mount spares the root. -/
def SparesRoot (w : World) (mount : VirtualMount) (c : Call) : Prop :=
  ∀ e, w.Edits c mount e → e.SparesRoot (w.mountOf mount)

/-- From canonical bases, a call keeps the shape of a well-formed mount exactly when it spares the
root of the mount. -/
theorem keepsShape_iff (hm : (w.mountOf mount).WellFormed) (c : Call) :
    w.KeepsShape mount c ↔ w.SparesRoot mount c := by
  constructor
  · intro hkeeps e he
    have hafter : EditsEntry c → ((w.mountOf mount).apply e).WellFormed := by
      intro hc
      have hshape := hkeeps.wellFormed
      rwa [call, w.callResult_of_edits hc he, mountOf_perform he] at hshape
    have hedit := Mount.wellFormed_apply_iff hm he.allows (he.canonical hw)
    -- opening a file creates at most the file, the other calls are their edit
    cases he with
    | createFile | createFile2 | createDir | removeFile => trivial
    | removeDir => exact hedit.1 (hafter trivial)
    | renameFile => trivial
    | renameDir => exact hedit.1 (hafter trivial)
  · intro hspares
    rcases w.call_refines c with hsame | ⟨mount', e, he, hallow, hafter, hother⟩
    · exact ⟨by rwa [hsame mount], fun d hd _ => .inl (by rwa [hsame mount])⟩
    · by_cases hmount : mount = mount'
      · subst hmount
        refine ⟨?_, fun d hd hchildren => ?_⟩
        · rw [hafter]
          exact (Mount.wellFormed_apply_iff hm hallow (he.canonical hw)).2 (hspares e he)
        · rw [hafter]
          rcases Mount.dirs_apply_of_children hallow hd hchildren with
            hstay | ⟨source, target, rfl, hat, hmoved⟩
          · exact .inl hstay
          · exact .inr ⟨source, target, he, hat, hmoved⟩
      · have hsame := hother mount hmount
        exact ⟨by rwa [hsame], fun d hd _ => .inl (by rwa [hsame])⟩

end World

/-! ### Runs -/

namespace System

/-- Every live runtime has canonical bases. -/
def CanonicalBases (s : System) : Prop := ∀ r ∈ s.runtimes, (World.mk s.host r).CanonicalBases

/-- No directory is moved onto a root. -/
def KeepsRootsApart (s : System) : Event → Prop
  | .call c => s.world.KeepsRootsApart c
  | _ => True

variable {s : System}

theorem CanonicalBases.world (h : s.CanonicalBases) : s.world.CanonicalBases :=
  h s.runtime List.mem_cons_self

theorem canonicalBases_newRuntime (host : Host) (cwd : Option Text) (stdin : Bytes) :
    (World.mk host (World.newRuntime host cwd stdin)).CanonicalBases :=
  ⟨canonicalCwd_normalizeRuntimeCwd cwd, fun fd file path hfile _ => by cases hfile⟩

theorem canonicalBases_step (h : s.CanonicalBases) (e : Event) (he : s.KeepsRootsApart e) :
    (s.step e).CanonicalBases := by
  -- the child has its parent's table and a normalized working directory
  have hchild : s.world.forkChild.CanonicalBases := by
    refine h.world.of_table (canonicalCwd_normalizeRuntimeCwd _) fun fd file hfile => .inl ?_
    rw [← hfile]
    exact congrArg (fun t : OrdMap Int OpenFile => t.get fd) (World.mapVals_self _).symm
  refine forall_runtimes_step (P := World.CanonicalBases) (G := fun _ => True) h e
    (fun host _ r hr => (h r hr).of_runtime rfl) ?_ (fun w hplains _ => ⟨?_, trivial⟩)
    (fun snapshot => ⟨?_, trivial⟩) (fun _ _ => trivial) hchild
  · rintro c rfl
    exact ⟨World.canonicalBases_call h.world he, trivial⟩
  · exact hplains.canonicalBases h.world
  · exact World.canonicalBases_childSnapshot h.world snapshot

/-- The bases are canonical in every run that moves no directory onto a root. -/
theorem canonicalBases_of_run {t : System} (hs : s.CanonicalBases)
    (hrun : Run step KeepsRootsApart s t) : t.CanonicalBases :=
  hrun.invariant hs fun _ e h he => canonicalBases_step h e he

theorem canonicalBases_boot (snapshot : Option World.SnapshotTree)
    (files rootFiles : List PackageFile)
    (cwd : Option Text) (stdin : Bytes) :
    (boot snapshot files rootFiles cwd stdin).CanonicalBases := by
  intro r hr
  obtain rfl : r = World.newRuntime (createWasiWorkspaceMount snapshot files rootFiles) cwd stdin :=
    by simpa [runtimes, boot, start] using hr
  exact canonicalBases_newRuntime _ cwd stdin

/-- In every state reached without moving a directory onto a root, a call keeps the shape of a
well-formed mount exactly when it spares the root. -/
theorem treeShape {snapshot : Option World.SnapshotTree} {files rootFiles : List PackageFile}
    {cwd : Option Text} {stdin : Bytes} {s : System}
    (hrun : Run step KeepsRootsApart (boot snapshot files rootFiles cwd stdin) s)
    {mount : VirtualMount} (hm : (s.world.mountOf mount).WellFormed) (c : Call) :
    s.world.KeepsShape mount c ↔ s.world.SparesRoot mount c := by
  have hbases := canonicalBases_of_run (canonicalBases_boot snapshot files rootFiles cwd stdin) hrun
  exact World.keepsShape_iff hbases.world hm c

/-- A mount without files is well formed as soon as its directories are. -/
theorem wellFormed_of_no_files {m : Mount ℕ} (hfiles : ∀ k, m.files.has k = false)
    (hroot : m.dirs.has [] = true) (hdirs : ∀ k, m.dirs.has k = true → CanonicalPath k) :
    m.WellFormed := by
  refine ⟨hroot, fun k hk => ?_, fun f k hf _ => ?_, fun k hk => ?_, hdirs⟩
  · simp [hfiles k] at hk
  · simp [hfiles f] at hf
  · simp [hfiles k] at hk

/-- A run on an empty workspace, before its first call. -/
def emptyBoot : System := boot (some ⟨[], []⟩) [] [] none []

theorem wellFormed_emptyBoot (mount : VirtualMount) :
    (emptyBoot.world.mountOf mount).WellFormed := by
  have hdirs : ∀ k, (OrdMap.empty.set [] () : OrdSet Text).has k = true → CanonicalPath k := by
    intro k hk
    exact .inl (by simpa using hk)
  cases mount with
  | workspace | scratch => exact wellFormed_of_no_files (fun k => rfl) (by decide) hdirs

/-- The general theorem, applied to a new directory. -/
theorem treeShape_emptyBoot :
    emptyBoot.world.KeepsShape .workspace (.pathCreateDirectory 3 "d".toList) := by
  refine (treeShape (s := emptyBoot) .start (wellFormed_emptyBoot _) _).2 ?_
  rintro e ⟨⟩
  trivial

/-- The root of `/tmp` can be renamed into its own tree, after which it is gone. -/
theorem not_keepsShape_renameRoot :
    (emptyBoot.world.mountOf .scratch).WellFormed ∧
      ¬emptyBoot.world.KeepsShape .scratch (.pathRename 4 ".".toList 4 "x".toList) := by
  refine ⟨wellFormed_emptyBoot _, fun h => ?_⟩
  exact absurd h.wellFormed.root (by decide)

end System

end WasmHost

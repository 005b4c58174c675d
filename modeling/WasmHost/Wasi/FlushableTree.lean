import WasmHost.Wasi.WorkspaceEdits
import WasmHost.Wasi.WorkspaceFlush

/-!
# Workspaces that the store takes

A workspace goes into the store as a whole or not at all: the store refuses a snapshot with one file
whose directory is missing, and a name that it reads in its own way loses its file or takes
another's place. The guest can make such names, and it can make a package file its own that lies in
no directory of the workspace.

* `KeyTree`: files and directories by key, in the form that the store takes.
* `Host.Flushes`: the store accepts the export, and holds exactly what was exported.
* `World.flushes_of_flushSafe`: along calls that give no entry an unstorable place, every state
  flushes.
-/

namespace WasmHost

open SepPath

/-- The files `E` and the directories `D` are a tree whose names the store reads back as they
are. -/
structure KeyTree (E D : Text → Prop) : Prop where
  root : D []
  kinds : ∀ k, E k → ¬D k
  fileParent : ∀ k, E k → D (parentPath k)
  directoryParent : ∀ k, D k → D (parentPath k)
  names : ∀ k, E k ∨ D k → StoreStable k

/-- A file has room under a key. -/
structure TakesFile (D : Text → Prop) (k : Text) : Prop where
  kind : ¬D k
  parent : D (parentPath k)
  name : StoreStable k

namespace KeyTree

variable {E E' D : Text → Prop} (h : KeyTree E D) {path : Text}
include h

/-- Files may go, and new ones come where they have room. -/
theorem files (hfiles : ∀ k, E' k → E k ∨ TakesFile D k) : KeyTree E' D := by
  refine ⟨h.root, fun k hk => ?_, fun k hk => ?_, h.directoryParent, fun k hk => ?_⟩
  · rcases hfiles k hk with hold | hnew
    · exact h.kinds k hold
    · exact hnew.kind
  · rcases hfiles k hk with hold | hnew
    · exact h.fileParent k hold
    · exact hnew.parent
  · rcases hk with hk | hk
    · rcases hfiles k hk with hold | hnew
      · exact h.names k (.inl hold)
      · exact hnew.name
    · exact h.names k (.inr hk)

theorem createDirectory (hfile : ¬E path) (hparent : D (parentPath path))
    (hname : StoreStable path) :
    KeyTree E fun k => k = path ∨ D k := by
  refine ⟨.inr h.root, fun k hk => ?_, fun k hk => .inr (h.fileParent k hk), fun k hk => ?_,
    fun k hk => ?_⟩
  · rintro (rfl | hdir)
    · exact hfile hk
    · exact h.kinds k hk hdir
  · rcases hk with rfl | hk
    · exact .inr hparent
    · exact .inr (h.directoryParent k hk)
  · rcases hk with hk | rfl | hk
    · exact h.names k (.inl hk)
    · exact hname
    · exact h.names k (.inr hk)

/-- A directory without entries may go, unless it is the root. -/
theorem removeDirectory (hne : path ≠ []) (hempty : ∀ k, E k ∨ D k → ¬SepPath.Below '/' path k) :
    KeyTree E fun k => k ≠ path ∧ D k := by
  -- what lies in the directory lies below it
  have hparent : ∀ k, E k ∨ D k → parentPath k ≠ path := fun k hk heq =>
    hempty k hk (Store.below_of_parentPath hne (heq ▸ atOrBelow_self _))
  refine ⟨⟨hne.symm, h.root⟩, fun k hk hdir => h.kinds k hk hdir.2, fun k hk => ?_, fun k hk => ?_,
    fun k hk => h.names k (hk.imp_right And.right)⟩
  · exact ⟨hparent k (.inl hk), h.fileParent k hk⟩
  · exact ⟨hparent k (.inr hk.2), h.directoryParent k hk.2⟩

/-- A directory moves with everything below it to a place where nothing else is. -/
theorem moveDirectory {source target : Text} (hsource : source ≠ []) (htarget : target ≠ [])
    (hfile : ¬E source) (hinside : ¬SepPath.AtOrBelow '/' source target)
    (hparent : D (parentPath target))
    (hfree : ∀ k, E k ∨ (D k ∧ k ≠ target) → ¬SepPath.AtOrBelow '/' target k)
    (hnames : ∀ k, E k ∨ D k → SepPath.AtOrBelow '/' source k →
      StoreStable (rebase source target k)) :
    KeyTree (fun k => ∃ j, E j ∧ move '/' source target j = k)
      (fun k => ∃ j, (D j ∧ j ≠ target) ∧ move '/' source target j = k) := by
  have hinj : ∀ j j', E j ∨ (D j ∧ j ≠ target) → E j' ∨ (D j' ∧ j' ≠ target) →
      move '/' source target j = move '/' source target j' → j = j' :=
    fun j j' hj hj' => move_inj (.inr (hfree j hj)) (.inr (hfree j' hj'))
  -- the directory of a moved entry moves too, the directory of another one stays
  have hmoved : ∀ j, j ≠ source → E j ∨ (D j ∧ j ≠ target) → D (parentPath j) →
      ∃ i, (D i ∧ i ≠ target) ∧ move '/' source target i =
        parentPath (move '/' source target j) := by
    intro j hne hj hdir
    by_cases hat : SepPath.AtOrBelow '/' source j
    · have hbelow : SepPath.Below '/' source j := hat.resolve_left hne
      obtain ⟨hparentAt, hrebase⟩ : SepPath.AtOrBelow '/' source (parentPath j) ∧
          parentPath (rebase source target j) = rebase source target (parentPath j) :=
        Store.parentPath_rebase hbelow
      refine ⟨parentPath j, ⟨hdir, fun heq => hinside (heq ▸ hparentAt)⟩, ?_⟩
      rw [move_of_atOrBelow target hparentAt, move_of_atOrBelow target hat, hrebase]
    · have hparentAt : ¬SepPath.AtOrBelow '/' source (parentPath j) := fun hin =>
        hat (Store.below_of_parentPath hsource hin).atOrBelow
      refine ⟨parentPath j, ⟨hdir, fun heq => hfree j hj ?_⟩, ?_⟩
      · exact (Store.below_of_parentPath htarget (heq ▸ atOrBelow_self _)).atOrBelow
      · rw [move_of_not_atOrBelow target hparentAt, move_of_not_atOrBelow target hat]
  have hroot : ∀ p : Text, p ≠ [] → ¬SepPath.AtOrBelow '/' p [] := by
    rintro p hp (heq | hbelow)
    · exact hp heq.symm
    · exact absurd hbelow.length_lt (Nat.not_lt_zero _)
  refine ⟨⟨[], ⟨h.root, htarget.symm⟩, move_of_not_atOrBelow target (hroot source hsource)⟩,
    ?_, ?_, ?_, ?_⟩
  · rintro k ⟨j, hj, rfl⟩ ⟨i, hi, hij⟩
    obtain rfl := hinj i j (.inr hi) (.inl hj) hij
    exact h.kinds i hj hi.1
  · rintro k ⟨j, hj, rfl⟩
    exact hmoved j (fun heq => hfile (heq ▸ hj)) (.inl hj) (h.fileParent j hj)
  · rintro k ⟨j, hj, rfl⟩
    by_cases hne : j = source
    · -- the directory itself comes into the directory of its new place
      subst hne
      have hparentAt : ¬SepPath.AtOrBelow '/' j (parentPath target) := fun hin =>
        hinside (Store.below_of_parentPath hsource hin).atOrBelow
      refine ⟨parentPath target, ⟨hparent, fun heq => ?_⟩, ?_⟩
      · exact not_below_self target
          (Store.below_of_parentPath htarget (heq.symm ▸ atOrBelow_self _))
      · rw [move_of_not_atOrBelow target hparentAt,
          move_of_atOrBelow target (atOrBelow_self j), rebase_self]
    · exact hmoved j hne (.inr hj) (h.directoryParent j hj.1)
  · have hname : ∀ j, E j ∨ D j → StoreStable (move '/' source target j) := by
      intro j hj
      by_cases hat : SepPath.AtOrBelow '/' source j
      · rw [move_of_atOrBelow target hat]
        exact hnames j hj hat
      · rw [move_of_not_atOrBelow target hat]
        exact h.names j hj
    rintro k (⟨j, hj, rfl⟩ | ⟨j, ⟨hj, -⟩, rfl⟩)
    · exact hname j (.inl hj)
    · exact hname j (.inr hj)

end KeyTree

/-! ### Workspaces -/

namespace Host

variable (host : Host)

/-- The workspace has a file of the guest under the key. -/
def Exports (k : Text) : Prop := (host.exportedFile k).isSome = true

/-- The key is a directory of the workspace. -/
def IsDirectory (k : Text) : Prop := host.workspaceDirs.has k = true

/-- What is exported is a tree with names that survive. -/
def Storable : Prop := KeyTree host.Exports host.IsDirectory

/-- The timestamps of the file objects are in the range of the store. -/
def Timed : Prop := ∀ k record, host.workspaceFile k = some record → record.mtimeMs.getD 0 < 2 ^ 53

/-- The store holds the files of the guest under the same paths and with the same bytes, and the
same directories. -/
structure HeldBy (store : Store) : Prop where
  files : ∀ k bytes, (∃ file, store.files.get k = some file ∧ file.content = bytes ∧
    file.path = workspacePath k) ↔
    ∃ record, host.exportedFile k = some record ∧ record.bytes = bytes
  directories : ∀ k, store.directories.has k = host.workspaceDirs.has k

/-- Every store accepts the export, and holds what was exported then. -/
def Flushes (localeLe : Text → Text → Bool) (now : ℕ) : Prop := ∀ s : Store,
  (s.importSnapshot now (host.exportWasiWorkspaceSnapshot localeLe)).2 = .ok () ∧
    host.HeldBy (s.importSnapshot now (host.exportWasiWorkspaceSnapshot localeLe)).1

variable {host}

theorem exports_iff {k : Text} :
    host.Exports k ↔ ∃ record, host.workspaceFile k = some record ∧ record.fallback = false := by
  rw [Exports, Option.isSome_iff_exists]
  exact exists_congr fun _ => exportedFile_eq_some_iff

section

variable (h : host.Storable) (hnamed : host.Named) (htimed : host.Timed)
include h hnamed htimed

/-- The store takes a storable workspace, and holds it then. -/
theorem Storable.exists_loadSnapshot (localeLe : Text → Text → Bool) (now : ℕ) :
    ∃ store, Store.loadSnapshot now (host.exportWasiWorkspaceSnapshot localeLe) = .ok store ∧
      host.HeldBy store := by
  have hexports : ∀ k record, host.exportedFile k = some record → host.Exports k :=
    fun k record hk =>
    Option.isSome_iff_exists.2 ⟨record, hk⟩
  have hspelled : host.Spelled := by
    refine ⟨fun k hk => h.names k (.inr hk), fun k record hk => ⟨?_, ?_⟩⟩
    · exact h.names k (.inl (hexports k record hk))
    · exact htimed k record (exportedFile_eq_some_iff.1 hk).1
  have htree : host.Treelike := by
    refine ⟨fun k record hk => ⟨?_, ?_⟩, fun k record hk => .inr ?_,
      fun k hk => .inr (h.directoryParent k hk)⟩
    · rintro rfl
      exact h.kinds [] (hexports [] record hk) h.root
    · exact Bool.not_eq_true _ ▸ h.kinds k (hexports k record hk)
    · exact h.fileParent k (hexports k record hk)
  obtain ⟨store, hstore⟩ :
      ∃ store, Store.loadSnapshot now (host.exportWasiWorkspaceSnapshot localeLe) = .ok store :=
    (loadSnapshot_export_iff hnamed hspelled now).2 htree
  have hstored := storedIn_of_loadSnapshot hnamed hspelled hstore
  refine ⟨store, hstore, fun k bytes => ?_, fun k => ?_⟩
  · rw [hstored.files]
    constructor
    · rintro ⟨file, hfile, rfl, -⟩
      obtain ⟨record, hrecord, rfl⟩ := Option.map_eq_some_iff.1 hfile
      exact ⟨record, hrecord, rfl⟩
    · rintro ⟨record, hrecord, rfl⟩
      exact ⟨_, Option.map_eq_some_iff.2 ⟨record, hrecord, rfl⟩, rfl, rfl⟩
  · rw [Bool.eq_iff_iff, hstored.directory_iff]
    constructor
    · rintro (rfl | hk)
      · exact h.root
      · exact hk
    · exact .inr

theorem Storable.flushes (localeLe : Text → Text → Bool) (now : ℕ) : host.Flushes localeLe now := by
  intro s
  obtain ⟨store, hstore, hheld⟩ := h.exists_loadSnapshot hnamed htimed localeLe now
  rw [Store.importSnapshot, hstore]
  exact ⟨rfl, hheld⟩

end

end Host

/-! ### Calls -/

namespace World

/-- The edit gives every entry a place that the store takes. -/
def EditStorable (host : Host) : Mount.Edit ℕ → Prop
  | .createFile path _ | .createDir path => StoreStable path
  | .removeFile _ => True
  | .removeDir path => path ≠ []
  | .renameFile _ target _ => TakesFile host.IsDirectory target
  | .renameDir source target => ∀ k, host.Exports k ∨ host.IsDirectory k →
      SepPath.AtOrBelow '/' source k → StoreStable (SepPath.rebase source target k)

/-- A call that gives no entry a place that the store refuses: neither by an edit, nor when it makes
a package file the guest's own. -/
structure FlushSafe (w : World) (c : Call) : Prop where
  edit : ∀ e, w.Edits c .workspace e → EditStorable w.host e
  adopted : ∀ k record, w.host.workspaceFile k = some record → record.fallback = true →
    (w.call c).host.Exports k → TakesFile w.host.IsDirectory k

theorem Orderly.hostNamed {w : World} (hw : w.Orderly) : w.host.Named := by
  intro k record hk
  rw [workspaceFile_eq_fileAt hw.shares] at hk
  obtain ⟨r, hr, rfl⟩ := fileAt_eq_some_iff.1 hk
  exact hw.named k r hr

section

variable {w : World} (hw : w.Orderly)
include hw

variable {k : Text}

theorem exports_iff_fileAt :
    w.host.Exports k ↔ ∃ record, w.fileAt k = some record ∧ record.fallback = false := by
  rw [Host.exports_iff]
  simp only [workspaceFile_eq_fileAt hw.shares]

theorem isDirectory_iff : w.host.IsDirectory k ↔ w.workspaceMount.dirs.has k = true := by
  rw [Host.IsDirectory, workspaceDirs_eq hw.shares]

theorem has_of_exports (h : w.host.Exports k) : w.workspaceMount.files.has k = true := by
  obtain ⟨record, hrecord, -⟩ := (exports_iff_fileAt hw).1 h
  exact has_iff_fileAt.2 ⟨record, hrecord⟩

theorem timed_call (htimed : w.host.Timed) (c : Call) : (w.call c).host.Timed := by
  intro k record hk
  rw [workspaceFile_eq_fileAt (sharesMaps_call hw.shares c)] at hk
  have hold : ∀ j old, w.fileAt j = some old → old.mtimeMs.getD 0 < 2 ^ 53 := fun j old hj =>
    htimed j old ((workspaceFile_eq_fileAt hw.shares j).trans hj)
  cases descends_call hw c hk with
  | new hedit hmtime hfallback =>
    rw [hmtime]
    decide
  | kept old hat hkept =>
    rw [hkept.mtimeMs]
    exact hold k old hat
  | renamed source file old hedit hat hrecord =>
    rw [hrecord]
    exact hold source old hat
  | moved source target j old hedit hat hmove hrecord =>
    rw [hrecord]
    exact hold j old hat

section

variable (h : w.host.Storable)
include h

/-- A parent that passes the check is a directory. -/
theorem isDirectory_of_parentStatus {path : Text}
    (hparent : w.workspaceMount.scratchParentStatus path = .ok ()) :
    w.host.IsDirectory (parentPath path) := by
  cases hp : parent? '/' path with
  | none =>
    rw [parentPath, hp]
    exact h.root
  | some parent =>
    rw [Store.parentPath_of_parent? hp, isDirectory_iff hw]
    exact ((w.workspaceMount.scratchParentStatus_eq_ok_iff path).1 hparent parent hp).2

variable {c : Call}

/-- The files after a call that moves no directory have had their places, or take new ones. -/
theorem exports_call (hsafe : w.FlushSafe c)
    (hstay : ∀ source target, ¬w.Edits c .workspace (.renameDir source target))
    (hk : (w.call c).host.Exports k) : w.host.Exports k ∨ TakesFile w.host.IsDirectory k := by
  obtain ⟨record, hrecord, hfallback⟩ := (exports_iff_fileAt (hw.call c)).1 hk
  cases descends_call hw c hrecord with
  | new hedit hmtime hfallback =>
    obtain ⟨-, hallow⟩ := hedit.allows
    obtain ⟨hdir, -, hparent⟩ := (w.workspaceMount.checkOpenFile_eq_ok_iff k).1 hallow
    refine .inr ⟨fun hin => ?_, isDirectory_of_parentStatus hw h hparent, hsafe.edit _ hedit⟩
    rw [isDirectory_iff hw, hdir] at hin
    cases hin
  | kept old hold hkept =>
    cases hown : old.fallback with
    | false => exact .inl ((exports_iff_fileAt hw).2 ⟨old, hold, hown⟩)
    | true =>
      exact .inr (hsafe.adopted k old ((workspaceFile_eq_fileAt hw.shares k).trans hold) hown hk)
  | renamed source file old hedit hold hrecord => exact .inr (hsafe.edit _ hedit)
  | moved source target j old hedit hold hmove hrecord => exact absurd hedit (hstay source target)

/-- A directory that moves takes its entries to places where the store takes them. -/
theorem storable_renameDir {source target : Text}
    (hedit : w.Edits c .workspace (.renameDir source target))
    (hcall : w.call c = w.perform .workspace (.renameDir source target))
    (hsafe : EditStorable w.host (.renameDir source target)) : (w.call c).host.Storable := by
  have hafter := hw.call c
  have hallow : w.workspaceMount.Allows (.renameDir source target) := hedit.allows
  obtain ⟨hkind, hinside, hfree⟩ :=
    (w.workspaceMount.checkRename_eq_ok_iff source target .directory).1 hallow.2
  obtain ⟨hnotfile, -⟩ := (w.workspaceMount.pathKind_eq_directory_iff source).1 hkind
  obtain ⟨hsource, htarget⟩ : source ≠ [] ∧ target ≠ [] := by
    cases hedit with
    | renameDir hkeys _ => exact renameKeys_ne_nil hkeys
  have hexports : (w.call c).host.Exports =
      fun k => ∃ j, w.host.Exports j ∧ move '/' source target j = k := by
    funext k
    refine propext ((exports_iff_fileAt hafter).trans ⟨?_, ?_⟩)
    · rintro ⟨record, hrecord, hfallback⟩
      rw [hcall] at hrecord
      obtain ⟨j, old, hold, hmove, rfl⟩ := (fileAt_perform_renameDir hw hedit).1 hrecord
      exact ⟨j, (exports_iff_fileAt hw).2 ⟨old, hold, hfallback⟩, hmove⟩
    · rintro ⟨j, hj, hmove⟩
      obtain ⟨old, hold, hfallback⟩ := (exports_iff_fileAt hw).1 hj
      rw [hcall]
      exact ⟨_, (fileAt_perform_renameDir hw hedit).2 ⟨j, old, hold, hmove, rfl⟩, hfallback⟩
  have hdirectories : (w.call c).host.IsDirectory = fun k =>
      ∃ j, (w.host.IsDirectory j ∧ j ≠ target) ∧ move '/' source target j = k := by
    funext k
    have hmount : (w.call c).workspaceMount =
        w.workspaceMount.apply (.renameDir source target) := by
      rw [hcall]
      exact mountOf_perform hedit
    refine propext ((isDirectory_iff hafter).trans ?_)
    rw [hmount]
    refine (OrdMap.has_rekey _ _ _ _).trans (exists_congr fun j => and_congr_left fun _ => ?_)
    rw [isDirectory_iff hw, OrdMap.has_delete]
    simp [and_comm]
  rw [Host.Storable, hexports, hdirectories]
  have hat : ¬SepPath.AtOrBelow '/' source target := by
    rintro (heq | hbelow)
    · exact hallow.1 heq.symm
    · exact hinside ⟨rfl, hbelow⟩
  refine h.moveDirectory hsource htarget (fun hin => ?_) hat ?_ (fun k hk => ?_) hsafe
  · rw [has_of_exports hw hin] at hnotfile
    cases hnotfile
  · -- the new place has its directory, or is one itself
    rcases hfree with ⟨-, hparent⟩ | ⟨hdir, hempty⟩
    · exact isDirectory_of_parentStatus hw h hparent
    · have hin := ((w.workspaceMount.pathKind_eq_directory_iff target).1 hdir).2.resolve_right
        (by rw [hempty rfl]; decide)
      exact h.directoryParent target ((isDirectory_iff hw).2 hin)
  · refine hfree.not_atOrBelow_target (hk.imp (has_of_exports hw) fun hdir => ?_)
    exact ⟨(isDirectory_iff hw).1 hdir.1, hdir.2⟩

theorem storable_call (hsafe : w.FlushSafe c) : (w.call c).host.Storable := by
  by_cases hmoves : ∃ source target, w.Edits c .workspace (.renameDir source target)
  · obtain ⟨source, target, hedit⟩ := hmoves
    have hentry : EditsEntry c := by
      cases hedit
      trivial
    have hcall : w.call c = w.perform .workspace (.renameDir source target) := by
      rw [call, w.callResult_of_edits hentry hedit]
    exact storable_renameDir hw h hedit hcall (hsafe.edit _ hedit)
  · -- files come and go, and at most one directory
    have hexports : ∀ k, (w.call c).host.Exports k → w.host.Exports k ∨
        TakesFile w.host.IsDirectory k := fun k =>
      exports_call hw h hsafe fun source target hedit => hmoves ⟨source, target, hedit⟩
    have htree : KeyTree (w.call c).host.Exports w.host.IsDirectory := h.files hexports
    have hstay : (∀ k, (w.call c).host.IsDirectory k ↔ w.host.IsDirectory k) →
        (w.call c).host.Storable := by
      intro hdirs
      rwa [Host.Storable, show (w.call c).host.IsDirectory = w.host.IsDirectory from
        funext fun k => propext (hdirs k)]
    rcases call_workspace hw.toGuarded c with htouches | ⟨path, hedit, htouches⟩ |
      ⟨e, hc, hedit, hcall⟩
    · refine hstay fun k => ?_
      rw [Host.IsDirectory, htouches.workspaceDirs]
      rfl
    · refine hstay fun k => ?_
      rw [Host.IsDirectory, htouches.workspaceDirs]
      rfl
    · have hmount : (w.call c).workspaceMount = w.workspaceMount.apply e := by
        rw [hcall]
        exact mountOf_perform hedit
      have hdirs :
          ∀ k, (w.call c).host.IsDirectory k ↔ (w.workspaceMount.apply e).dirs.has k = true :=
        fun k => (isDirectory_iff (hw.call c)).trans (by rw [hmount])
      cases e with
      | createFile => cases hedit <;> exact hc.elim
      | createDir path =>
        obtain ⟨-, hfile, hparent⟩ :=
          (w.workspaceMount.checkCreateDirectory_eq_ok_iff path).1 hedit.allows
        have hnew : (w.call c).host.IsDirectory = fun k => k = path ∨ w.host.IsDirectory k := by
          funext k
          rw [propext (hdirs k), isDirectory_iff hw]
          simp [Mount.apply]
        rw [Host.Storable, hnew]
        refine htree.createDirectory (fun hin => ?_) (isDirectory_of_parentStatus hw h hparent)
          (hsafe.edit _ hedit)
        have hfiles : (w.call c).workspaceMount.files = w.workspaceMount.files := by
          rw [hmount]
          rfl
        have hhas := has_of_exports (hw.call c) hin
        rw [hfiles, hfile] at hhas
        cases hhas
      | removeFile => exact hstay fun k => (hdirs k).trans (isDirectory_iff hw).symm
      | removeDir path =>
        obtain ⟨base, hcheck⟩ := hedit.allows
        obtain ⟨-, -, -, -, hchildren⟩ :=
          (w.workspaceMount.checkRemoveDirectory_eq_ok_iff base path).1 hcheck
        have hempty := (w.workspaceMount.pathHasChildren_eq_false_iff path).1 hchildren
        have hnew : (w.call c).host.IsDirectory = fun k => k ≠ path ∧ w.host.IsDirectory k := by
          funext k
          rw [propext (hdirs k), isDirectory_iff hw]
          simp [Mount.apply]
        rw [Host.Storable, hnew]
        refine htree.removeDirectory (hsafe.edit _ hedit) fun k hk hbelow => ?_
        obtain ⟨hdir, hfile⟩ := hempty k hbelow
        rcases hk with hk | hk
        · have hfiles : (w.call c).workspaceMount.files = w.workspaceMount.files := by
            rw [hmount]
            rfl
          have hhas := has_of_exports (hw.call c) hk
          rw [hfiles, hfile] at hhas
          cases hhas
        · rw [isDirectory_iff hw, hdir] at hk
          cases hk
      | renameFile => exact hstay fun k => (hdirs k).trans (isDirectory_iff hw).symm
      | renameDir source target => exact absurd ⟨source, target, hedit⟩ hmoves

end

end

/-! ### Runs -/

variable {localeLe : Text → Text → Bool} {mountTime : ℕ} {snapshot : Snapshot} {t : SnapshotTree}

/-- The timestamps of a mounted snapshot are in range. -/
theorem timed_mounted (hread : readSnapshot localeLe mountTime snapshot = .ok t)
    (files rootFiles : List PackageFile) :
    (createWasiWorkspaceMount (some t) files rootFiles).Timed := by
  intro k record hk
  rw [workspaceFile_mounted, Option.or_eq_some_iff] at hk
  rcases hk with hk | ⟨-, hk⟩
  · obtain ⟨store, hload, -, hfiles⟩ := readSnapshot_eq_ok_iff.1 hread
    have hmem := (OrdMap.exists_mem_of_get_setAll _ _ hk).resolve_right (by simp)
    obtain ⟨file, hfile, heq⟩ := List.mem_map.1 hmem
    obtain ⟨-, rfl⟩ := Prod.mk.inj heq
    obtain ⟨entry, hentry, hkey⟩ := Except.exists_of_mem_mapM hfiles hfile
    obtain ⟨j, stored, hstored, rfl⟩ := Store.mem_files_exportSnapshot.1 hentry
    obtain ⟨-, -, hmtime⟩ := readSnapshotFile_eq_ok_iff.1 hkey
    have htime : file.mtimeMs = stored.mtimeMs := by simpa using hmtime
    have hlt := Store.mtimeMs_lt_of_loadSnapshot hload hstored
    rwa [← htime] at hlt
  · obtain ⟨file, -, rfl⟩ := Option.map_eq_some_iff.1 hk
    exact Nat.two_pow_pos 53

/-- From a workspace that the store takes, along calls that give no entry a place that the store
refuses, every state flushes. -/
theorem flushes_of_flushSafe {localeLe : Text → Text → Bool} {mountTime : ℕ} {snapshot : Snapshot}
    {t : SnapshotTree} {files rootFiles : List PackageFile}
    (hread : readSnapshot localeLe mountTime snapshot = .ok t)
    (hstart : (createWasiWorkspaceMount (some t) files rootFiles).Storable)
    (cwd : Option Text) (stdin : Bytes) {calls : List Call}
    (hcalls : Along call FlushSafe (System.boot (some t) files rootFiles cwd stdin).world calls)
    (now : ℕ) :
    Always call (fun w => w.host.Flushes localeLe now)
      (System.boot (some t) files rootFiles cwd stdin).world calls := by
  have hkeeps : ∀ (w : World) (c : Call), w.Orderly ∧ w.host.Timed ∧ w.host.Storable →
      w.FlushSafe c → (w.call c).Orderly ∧ (w.call c).host.Timed ∧ (w.call c).host.Storable :=
    fun w c ⟨hw, htimed, hstorable⟩ hsafe =>
      ⟨hw.call c, timed_call hw htimed c, storable_call hw hstorable hsafe⟩
  have halways := Always.of_along hkeeps
    ⟨orderly_boot t files rootFiles cwd stdin, timed_mounted hread files rootFiles, hstart⟩ hcalls
  exact halways.mono fun w ⟨hw, htimed, hstorable⟩ =>
    hstorable.flushes hw.hostNamed htimed localeLe now

/-- What the store has loaded under stable names it takes again. -/
theorem storable_mounted {mounted : Store}
    (hload : Store.loadSnapshot mountTime snapshot = .ok mounted) (hstable : mounted.Stable)
    (hread : readSnapshot localeLe mountTime snapshot = .ok t) (files rootFiles : List PackageFile)
    : (createWasiWorkspaceMount (some t) files rootFiles).Storable := by
  obtain ⟨hspelled, htree⟩ :
      (createWasiWorkspaceMount (some t) files rootFiles).Spelled ∧
        (createWasiWorkspaceMount (some t) files rootFiles).Treelike :=
    spelled_treelike_mounted hload hstable hread
  have hroot : (createWasiWorkspaceMount (some t) files rootFiles).IsDirectory [] :=
    (workspaceDirs_mounted t files rootFiles []).2 (.inl rfl)
  have hparent : ∀ p : Text, p = [] ∨
      (createWasiWorkspaceMount (some t) files rootFiles).workspaceDirs.has p = true →
      (createWasiWorkspaceMount (some t) files rootFiles).IsDirectory p := by
    rintro p (rfl | hp)
    · exact hroot
    · exact hp
  refine ⟨hroot, fun k hk hdir => ?_, fun k hk => ?_,
    fun k hk => hparent _ (htree.directoryParent k hk), fun k hk => ?_⟩
  · obtain ⟨record, hrecord⟩ := Option.isSome_iff_exists.1 hk
    exact absurd hdir (by rw [Host.IsDirectory, (htree.kinds k record hrecord).2]; decide)
  · obtain ⟨record, hrecord⟩ := Option.isSome_iff_exists.1 hk
    exact hparent _ (htree.fileParent k record hrecord)
  · rcases hk with hk | hk
    · obtain ⟨record, hrecord⟩ := Option.isSome_iff_exists.1 hk
      exact (hspelled.file k record hrecord).1
    · exact hspelled.directory k hk

/-- A run on an empty workspace with a package file in a directory of its own. -/
def packagedStart : World :=
  (System.boot (some ⟨[[]], []⟩) [⟨"d/f".toList, [], by decide⟩] [] none []).world

theorem storable_packagedStart : packagedStart.host.Storable := by
  have hload : Store.loadSnapshot 0 System.emptySnapshot = .ok (Store.empty 0) := rfl
  refine storable_mounted hload ?_ System.readSnapshot_emptySnapshot _ _
  rintro k (hk | hk)
  · cases hk
  · obtain rfl : k = [] := by simpa [Store.empty] using hk
    decide

theorem flushes_of_flushSafe_packagedStart :
    Always call (fun w => w.host.Flushes (fun _ _ => true) 0) packagedStart
      [.pathUnlinkFile 3 "d/f".toList] := by
  have hgone :
      ∀ k, (packagedStart.call (.pathUnlinkFile 3 "d/f".toList)).host.exportedFile k = none := by
    intro k
    have hfiles :
        (packagedStart.call (.pathUnlinkFile 3 "d/f".toList)).host.workspaceFiles.entries =
        [] := by decide
    rw [Host.exportedFile, Host.workspaceFile, OrdMap.get, hfiles]
    rfl
  have hsafe : Along call FlushSafe packagedStart [.pathUnlinkFile 3 "d/f".toList] := by
    refine ⟨⟨fun e he => ?_, fun k record hk hfallback hexports => ?_⟩, trivial⟩
    · cases he with
      | removeFile => trivial
    · rw [Host.Exports, hgone] at hexports
      cases hexports
  exact flushes_of_flushSafe System.readSnapshot_emptySnapshot storable_packagedStart none
    [] hsafe 0

/-- The guest makes a file and renames it onto the package file. -/
def renameOntoPackageFile : List Call :=
  [.pathOpen 3 0 "a".toList oflagsCreat scratchFileRights 0 0,
    .pathRename 3 "a".toList 3 "d/f".toList]

/-- The directory of the package file is none of the workspace, and the store refuses the file. -/
theorem not_flushes_renameOntoPackageFile :
    readSnapshot (fun _ _ => true) 0 System.emptySnapshot = .ok ⟨[[]], []⟩ ∧
      ¬(runAll call packagedStart renameOntoPackageFile).host.Flushes (fun _ _ => true) 0 := by
  refine ⟨System.readSnapshot_emptySnapshot, fun h => ?_⟩
  have hfiles : (((runAll call packagedStart renameOntoPackageFile).host.workspaceFiles.values.map
      (runAll call packagedStart renameOntoPackageFile).host.records.get).filter fun file =>
        !file.fallback) = [⟨[], some "d/f".toList, none, false⟩] := by decide
  have hdirs :
      (runAll call packagedStart renameOntoPackageFile).host.workspaceDirs.keys = [[]] := by
    decide
  have haccepted := (h (Store.empty 0)).1
  rw [Host.exportWasiWorkspaceSnapshot, hfiles, hdirs, List.map_singleton, List.map_singleton,
    List.mergeSort_singleton, List.mergeSort_singleton] at haccepted
  revert haccepted
  decide

end World

end WasmHost

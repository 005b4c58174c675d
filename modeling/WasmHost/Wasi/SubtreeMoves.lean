import WasmHost.Lib.SubtreeMove
import WasmHost.Wasi.TreeShape
import WasmHost.Wasi.WorkspaceEdits

/-!
# Renaming a directory

What a rename of a directory does to the tree of its mount. Read as paths, the keys at or below the
source go to the same places below the target, and nothing else moves. The host compares and
rewrites keys as texts, which is the same except at the root: every key is below the root as a path,
and none begins with it and a separator.

* `Mount.movesSubtree_apply_iff`: an allowed move is a move of the subtree exactly when neither
  place is the root.
* `World.movesSubtree_pathRename_iff`: the same of the call, with the objects of the files.
-/

namespace WasmHost

open OrdMap SepPath

namespace Mount

variable {β : Type} {m m' : Mount β} {source target : Text}

/-- An entry that a rename keeps. Only an empty directory at a new place is not one. -/
def Keeps (m : Mount β) (source target k : Text) : Prop :=
  m.files.has k = true ∨ (m.dirs.has k = true ∧ (source ≠ target → k ≠ target))

/-- The steps to a key after the directory `source` has become `target`. -/
def movedSteps (source target k : Text) : List Text :=
  SepPath.reroot (SepPath.steps '/' source) (SepPath.steps '/' target) (SepPath.steps '/' k)

/-- The tree `m'` is the tree `m` with the directory `source` moved to `target`. -/
structure MovesSubtree (m m' : Mount β) (source target : Text) : Prop where
  root : m'.dirs.has [] = true
  /-- There was nothing at the new place but a directory without entries. -/
  empty : source ≠ target → ∀ k, m.files.has k = true ∨ m.dirs.has k = true →
    SepPath.steps '/' target <+: SepPath.steps '/' k → k = target ∧ m.files.has k = false
  dir : ∀ k', m'.dirs.has k' = true ↔ ∃ k, m.dirs.has k = true ∧ (source ≠ target → k ≠ target) ∧
    SepPath.steps '/' k' = movedSteps source target k
  file : ∀ k' file, m'.files.get k' = some file ↔ ∃ k, m.files.get k = some file ∧
    SepPath.steps '/' k' = movedSteps source target k
  /-- No two entries come to one place. -/
  injective : ∀ k k', m.Keeps source target k → m.Keeps source target k' →
    movedSteps source target k = movedSteps source target k' → k = k'

/-- A directory that keeps its place. -/
theorem movesSubtree_self (hroot : m.dirs.has [] = true) (source : Text) :
    m.MovesSubtree m source source := by
  have hstay : ∀ k, movedSteps source source k = SepPath.steps '/' k := fun k =>
    reroot_self _ _
  refine ⟨hroot, fun hne => absurd rfl hne, fun k' => ?_, fun k' file => ?_, fun k k' _ _ h => ?_⟩
  · constructor
    · intro hk'
      exact ⟨k', hk', fun hne => absurd rfl hne, (hstay k').symm⟩
    · rintro ⟨k, hk, -, hsteps⟩
      rwa [steps_injective (hsteps.trans (hstay k))]
  · constructor
    · intro hk'
      exact ⟨k', hk', (hstay k').symm⟩
    · rintro ⟨k, hk, hsteps⟩
      rwa [steps_injective (hsteps.trans (hstay k))]
  · exact steps_injective (((hstay k).symm.trans h).trans (hstay k'))

/-- Away from the root an allowed move is the move of the subtree. -/
theorem movesSubtree_apply (hroot : m.dirs.has [] = true)
    (h : m.Allows (.renameDir source target)) (hsource : source ≠ []) (htarget : target ≠ []) :
    m.MovesSubtree (m.apply (.renameDir source target)) source target := by
  obtain ⟨hne, hcheck⟩ := h
  obtain ⟨-, -, hfree⟩ := (m.checkRename_eq_ok_iff source target .directory).1 hcheck
  have hmove : ∀ k, movedSteps source target k =
      SepPath.steps '/' (SepPath.move '/' source target k) := fun k =>
    (steps_move hsource htarget k).symm
  have hkeeps : ∀ k, m.Keeps source target k →
      m.files.has k = true ∨ (m.dirs.has k = true ∧ k ≠ target) := fun k hk =>
    hk.imp_right fun hd => ⟨hd.1, hd.2 hne⟩
  -- the checks make room for the moved keys
  have hinj : ∀ k k', m.Keeps source target k → m.Keeps source target k' →
      SepPath.move '/' source target k = SepPath.move '/' source target k' → k = k' :=
    fun k k' hk hk' => move_inj (hfree.not_atOrBelow (hkeeps k hk))
      (hfree.not_atOrBelow (hkeeps k' hk'))
  refine ⟨?_, fun _ k hk hprefix => ?_, fun k' => ?_, fun k' file => ?_, fun k k' hk hk' heq => ?_⟩
  · refine (has_rekey _ _ _ _).2 ⟨[], by simp [hroot, Ne.symm htarget], ?_⟩
    refine move_of_not_atOrBelow target ?_
    rintro (h | h)
    · exact hsource h.symm
    · exact absurd h.length_lt (Nat.not_lt_zero _)
  · have hat := (atOrBelow_iff_steps htarget).2 hprefix
    by_cases hfile : m.files.has k = true
    · exact absurd hat (hfree.not_atOrBelow_target (.inl hfile))
    · refine ⟨?_, by simpa using hfile⟩
      by_contra hother
      exact hfree.not_atOrBelow_target (.inr ⟨hk.resolve_left hfile, hother⟩) hat
  · refine (has_rekey _ _ _ _).trans (exists_congr fun k => ?_)
    rw [hmove, steps_injective.eq_iff, has_delete, Bool.and_eq_true,
      Bool.not_eq_true', decide_eq_false_iff_not]
    constructor
    · rintro ⟨⟨hkt, hk⟩, rfl⟩
      exact ⟨hk, fun _ => hkt, rfl⟩
    · rintro ⟨hk, hkt, rfl⟩
      exact ⟨⟨hkt hne, hk⟩, rfl⟩
  · refine (get_rekey _ _ _ (fun i j hi hj => hinj i j (.inl hi) (.inl hj)) k'
      file).trans ?_
    constructor
    · rintro ⟨k, old, hk, rfl, rfl⟩
      exact ⟨k, hk, (hmove k).symm⟩
    · rintro ⟨k, hk, hsteps⟩
      exact ⟨k, file, hk, (steps_injective (hsteps.trans (hmove k))).symm, rfl⟩
  · rw [hmove, hmove] at heq
    exact hinj k k' hk hk' (steps_injective heq)

/-- The root is not a free place, since the directory that is moved is below it. -/
theorem not_movesSubtree_target (h : m.Allows (.renameDir source [])) :
    ¬m.MovesSubtree m' source [] := by
  intro hmoves
  have hempty : ∀ k, m.files.has k = true ∨ m.dirs.has k = true → k = [] := fun k hk =>
    (hmoves.empty h.1 k hk (by simp)).1
  obtain ⟨-, hdir | hchildren⟩ := (m.pathKind_eq_directory_iff source).1
    ((m.checkRename_eq_ok_iff source [] .directory).1 h.2).1
  · exact h.1 (hempty source (.inr hdir))
  · obtain ⟨k, hbelow, hk⟩ := (m.pathHasChildren_iff source).1 hchildren
    obtain rfl := hempty k hk.symm
    exact absurd hbelow.length_lt (Nat.not_lt_zero _)

/-- An allowed move of a directory of a well-formed mount moves its subtree exactly when neither
place is the root. -/
theorem movesSubtree_apply_iff (hm : m.WellFormed) (h : m.Allows (.renameDir source target)) :
    m.MovesSubtree (m.apply (.renameDir source target)) source target ↔
      source ≠ [] ∧ target ≠ [] := by
  constructor
  · intro hmoves
    refine ⟨?_, ?_⟩
    · rintro rfl
      exact absurd hmoves.root (by simp [hm.has_root_renameDir_source h.1])
    · rintro rfl
      exact not_movesSubtree_target h hmoves
  · rintro ⟨hsource, htarget⟩
    exact movesSubtree_apply hm.root h hsource htarget

end Mount

namespace World

/-- Every file of the mount carries the key it is stored under. -/
def NamedIn (w : World) (mount : VirtualMount) : Prop :=
  ∀ k r, (w.mountOf mount).files.get k = some r → (w.host.records.get r).path = some k

/-- The subtree of a directory has moved with its files, which keep their bytes and carry their new
keys. -/
structure MovesSubtree (w w' : World) (mount : VirtualMount) (source target : Text) : Prop where
  tree : (w.mountOf mount).MovesSubtree (w'.mountOf mount) source target
  bytes : ∀ k r, (w.mountOf mount).files.get k = some r →
    (w'.host.records.get r).bytes = (w.host.records.get r).bytes
  path : w'.NamedIn mount

variable {w : World} {mount : VirtualMount} {source target : Text} {c : Call}

/-- The objects after the rename of a directory. -/
theorem records_perform_renameDir (w : World) (mount : VirtualMount) (source target : Text) :
    (w.perform mount (.renameDir source target)).host.records =
      (w.repathRecords source target (w.mountOf mount).files).host.records := by
  cases mount with
  | workspace | scratch => rfl

/-- A file that has moved carries its new key, and the others keep theirs. -/
theorem namedIn_perform_renameDir (hw : w.NamedIn mount)
    (h : w.Edits c mount (.renameDir source target)) :
    (w.perform mount (.renameDir source target)).NamedIn mount := by
  intro k' r hk'
  rw [mountOf_perform h] at hk'
  obtain ⟨k, a, hk, hmove, rfl⟩ := exists_of_get_rekey
    (m := (w.mountOf mount).files) (f := SepPath.move '/' source target)
    (g := fun _ file => file) hk'
  have honly : ∀ i, (w.mountOf mount).files.get i = some a → i = k := fun i hi =>
    Option.some.inj ((hw i a hi).symm.trans (hw k a hk))
  rw [records_perform_renameDir, path_repathRecords (k := k) _ _ _ _ honly, hw k a hk, ← hmove]
  by_cases hat : SepPath.AtOrBelow '/' source k
  · rw [if_pos ⟨hk, hat⟩, move_of_atOrBelow target hat]
  · rw [if_neg fun hin => hat hin.2, move_of_not_atOrBelow target hat]

theorem movesSubtree_perform_iff (hm : (w.mountOf mount).WellFormed) (hw : w.NamedIn mount)
    (h : w.Edits c mount (.renameDir source target)) :
    MovesSubtree w (w.perform mount (.renameDir source target)) mount source target ↔
      source ≠ [] ∧ target ≠ [] := by
  rw [← Mount.movesSubtree_apply_iff hm h.allows, ← mountOf_perform h]
  constructor
  · exact MovesSubtree.tree
  · intro htree
    refine ⟨htree, fun k r _ => ?_, namedIn_perform_renameDir hw h⟩
    obtain ⟨path, hpath⟩ := get_repathRecords source target (w.mountOf mount).files r
    rw [records_perform_renameDir, hpath]

/-- A rename of a directory that the call accepts is one edit, or the directory keeps its place. -/
theorem edits_of_pathRename {mem : Memory} {oldFd newFd : Int} {oldPath newPath : Text}
    (hkeys : w.renameKeys oldFd oldPath newFd newPath = .ok (mount, source, target))
    (hkind : (w.mountOf mount).pathKind source = some .directory)
    (hok : (w.callResult mem (.pathRename oldFd oldPath newFd newPath)).2.2 = .ok ())
    (hne : source ≠ target) :
    w.Edits (.pathRename oldFd oldPath newFd newPath) mount (.renameDir source target) := by
  refine .renameDir hkeys ⟨hne, ?_⟩
  simp only [callResult, pathRename, hkeys, renameIn, if_neg hne] at hok
  split at hok
  next errno => cases hok
  next hfile =>
    have hfile := ((w.mountOf mount).checkRename_eq_ok_iff source target .file).1 hfile
    exact absurd (hkind.symm.trans hfile.1) (by simp)
  next hcheck => exact hcheck

/-- A rename of a directory that the call accepts moves exactly its subtree, unless it moves the
root or moves something onto it. -/
theorem movesSubtree_pathRename_iff (hm : (w.mountOf mount).WellFormed) (hw : w.NamedIn mount)
    {mem : Memory} {oldFd newFd : Int} {oldPath newPath : Text}
    (hkeys : w.renameKeys oldFd oldPath newFd newPath = .ok (mount, source, target))
    (hkind : (w.mountOf mount).pathKind source = some .directory)
    (hok : (w.callResult mem (.pathRename oldFd oldPath newFd newPath)).2.2 = .ok ()) :
    MovesSubtree w (w.call (.pathRename oldFd oldPath newFd newPath)) mount source target ↔
      source = target ∨ (source ≠ [] ∧ target ≠ []) := by
  by_cases hne : source = target
  · subst hne
    have hsame : w.call (.pathRename oldFd oldPath newFd newPath) = w := by
      simp [call, callResult, pathRename, hkeys, renameIn]
    rw [hsame]
    exact iff_of_true ⟨Mount.movesSubtree_self hm.root source, fun _ _ _ => rfl, hw⟩ (.inl rfl)
  · have hedit := edits_of_pathRename hkeys hkind hok hne
    rw [call, w.callResult_of_edits (c := .pathRename oldFd oldPath newFd newPath) trivial hedit,
      movesSubtree_perform_iff hm hw hedit]
    exact (or_iff_right hne).symm

end World

namespace System

open World

/-- An empty workspace, and a directory in `/tmp`. -/
def scratchDirectory : World := emptyBoot.world.call (.pathCreateDirectory 4 "a".toList)

theorem wellFormed_scratchDirectory : (scratchDirectory.mountOf .scratch).WellFormed := by
  refine ((treeShape (s := emptyBoot) .start (wellFormed_emptyBoot .scratch) _).2 ?_).wellFormed
  rintro e ⟨⟩
  trivial

theorem namedIn_scratchDirectory : scratchDirectory.NamedIn .scratch := by
  intro k r hk
  cases hk

/-- The directory can be renamed. -/
theorem movesSubtree_scratchDirectory :
    MovesSubtree scratchDirectory
      (scratchDirectory.call (.pathRename 4 "a".toList 4 "b".toList)) .scratch
      "a".toList "b".toList :=
  (movesSubtree_pathRename_iff wellFormed_scratchDirectory namedIn_scratchDirectory (by decide)
    (by decide)
    (show (scratchDirectory.callResult ⟨0, fun _ => 0⟩
      (.pathRename 4 "a".toList 4 "b".toList)).2.2 = .ok () by decide)).2 (by decide)

/-- So can `/tmp` itself, and the directory stays behind. -/
theorem not_movesSubtree_renameRoot :
    (scratchDirectory.mountOf .scratch).WellFormed ∧ scratchDirectory.NamedIn .scratch ∧
      scratchDirectory.renameKeys 4 ".".toList 4 "x".toList = .ok (.scratch, [], "x".toList) ∧
      (scratchDirectory.mountOf .scratch).pathKind [] = some .directory ∧
      (scratchDirectory.callResult ⟨0, fun _ => 0⟩
        (.pathRename 4 ".".toList 4 "x".toList)).2.2 = .ok () ∧
      ¬MovesSubtree scratchDirectory
        (scratchDirectory.call (.pathRename 4 ".".toList 4 "x".toList)) .scratch
        [] "x".toList := by
  refine ⟨wellFormed_scratchDirectory, namedIn_scratchDirectory, by decide, by decide, by decide,
    fun hmoves => ?_⟩
  -- `a` should have become `x/a`
  have hmoved := (hmoves.tree.dir "x/a".toList).2 ⟨"a".toList, by decide, by decide, by decide⟩
  exact absurd hmoved (by decide)

end System

end WasmHost

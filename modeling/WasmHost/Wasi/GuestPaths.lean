import WasmHost.PathNames
import WasmHost.Wasi.TreeShape

/-!
# What guest paths resolve to

The resolvers of the path calls, from the directories that descriptors and the working directory
stand for. A resolved key is canonical and lies at or below its directory, unless the text is an
absolute one of the mount; which key it is depends on the names alone that lie on the way to it.

* `World.guestPaths`: from canonical bases.
* `System.guestPaths_of_run`: in every run that moves no directory onto a root.
* `System.not_guestPaths`: where the resolvers do more, or refuse more, than this.
-/

namespace WasmHost

open SepPath

/-- The name of a mount in the package root. -/
def VirtualMount.rootName : VirtualMount → Text
  | .workspace => "workspace".toList
  | .scratch => "tmp".toList

variable {name key path : Text}

/-- A name is its only step. -/
theorem steps_name (hne : name ≠ []) (hno : '/' ∉ name) : SepPath.steps '/' name = [name] := by
  rw [steps_of_ne_nil hne]
  simpa using splitOn_join (List.cons_ne_nil name []) fun s hs => by
    rwa [List.mem_singleton.1 hs]

/-- The first step of a canonical key that begins with a name and a separator. -/
theorem steps_name_append (hne : name ≠ []) (hno : '/' ∉ name)
    (hcanonical : CanonicalPath (name ++ '/' :: key)) :
    SepPath.steps '/' (name ++ '/' :: key) = name :: SepPath.steps '/' key := by
  have hkey := hcanonical.resolve_left (List.append_ne_nil_of_right_ne_nil _ (by simp))
  rw [steps_append_sep hne, steps_name hne hno,
    steps_of_ne_nil (canonicalKey_append.1 hkey).2.ne_nil]
  rfl

/-- A canonical key below a name, which may be spelled with a `%`. -/
theorem steps_of_mountedRelativePath (hne : name ≠ []) (hno : '/' ∉ name)
    (hcanonical : CanonicalPath path) (h : mountedRelativePath path name = some key) :
    ∃ name', (name' = name ∨ name' = name ++ ['%']) ∧
      SepPath.steps '/' path = name' :: SepPath.steps '/' key := by
  have hpercent : name ++ ['%'] ≠ [] ∧ '/' ∉ name ++ ['%'] := by simp [hno]
  unfold mountedRelativePath at h
  split at h
  next heq =>
    rw [← Option.some.inj h, steps_nil]
    rcases heq with rfl | rfl
    · exact ⟨path, .inl rfl, steps_name hne hno⟩
    · exact ⟨_, .inr rfl, steps_name hpercent.1 hpercent.2⟩
  · split at h
    next hpre =>
      obtain ⟨r, hr⟩ := List.isPrefixOf_iff_prefix.1 hpre
      obtain rfl : path = name ++ '/' :: r := by simp [← hr]
      obtain rfl : r = key := by simpa using Option.some.inj h
      exact ⟨name, .inl rfl, steps_name_append hne hno hcanonical⟩
    · split at h
      next hpre =>
        obtain ⟨r, hr⟩ := List.isPrefixOf_iff_prefix.1 hpre
        obtain rfl : r = key := by
          rw [← Option.some.inj h, ← hr]
          exact (List.drop_left' (by simp)).symm
        obtain rfl : path = (name ++ ['%']) ++ '/' :: r := by simp [← hr]
        exact ⟨_, .inr rfl, steps_name_append hpercent.1 hpercent.2 hcanonical⟩
      · cases h

/-- A virtual mount is entered by its name. -/
theorem pathNames_of_rootVirtualMountPath {base : Text} {mount : VirtualMount}
    (h : rootVirtualMountPath base path = .ok (some (mount, key))) :
    base = [] ∧ ∃ name, (name = mount.rootName ∨ name = mount.rootName ++ ['%']) ∧
      pathNames path = name :: SepPath.steps '/' key := by
  have hslash : ∀ c : Char, decide (c = '/') = true → c = '/' := fun _ => of_decide_eq_true
  have hnames : pathNames (path.dropWhile (· = '/')) = pathNames path :=
    names_dropWhile isNamed_nil hslash path
  unfold rootVirtualMountPath at h
  split at h
  · cases Except.ok.inj h
  next hbase =>
    refine ⟨not_ne_iff.1 hbase, ?_⟩
    split at h
    · cases h
    next normalized hnorm =>
      rw [normalizeWasiLookupPath_eq] at hnorm
      have hcanonical := canonicalPath_of_normalizeWasiPath hnorm
      rw [← hnames, ← steps_of_normalizeWasiPath hnorm]
      split at h
      next k hk =>
        obtain ⟨rfl, rfl⟩ := Prod.mk.inj (Option.some.inj (Except.ok.inj h))
        exact steps_of_mountedRelativePath (by decide) (by decide) hcanonical hk
      · split at h
        next k hk =>
          obtain ⟨rfl, rfl⟩ := Prod.mk.inj (Option.some.inj (Except.ok.inj h))
          exact steps_of_mountedRelativePath (by decide) (by decide) hcanonical hk
        · cases Except.ok.inj h

namespace World

/-- A directory from which a path call resolves its text: that of a descriptor, or the working
directory as the package root sees it. -/
def IsBase (w : World) (base : Text) : Prop :=
  ∃ fd, w.workspaceBasePath fd = some base ∨ w.scratchBasePath fd = some base ∨
    w.packageRootBasePath fd = some base ∨
      ∃ path, w.workspaceCwdBasePathForPathRequest fd path = some base

/-- What the guest side promises about the paths of a state. -/
structure GuestPaths (w : World) : Prop where
  mounted : ∀ base, w.IsBase base → ∀ path mountPath allowAbsolute lookup key,
    resolveMountedPath base path mountPath allowAbsolute lookup = .ok key →
    CanonicalPath key ∧ (SepPath.steps '/' base <+: SepPath.steps '/' key ∨
      (allowAbsolute = true ∧ (mountedRelativePath path mountPath).isSome = true))
  packageRoot : ∀ base, w.IsBase base → ∀ path key, resolvePackageRootPath base path = .ok key →
    CanonicalPath key ∧ SepPath.steps '/' base <+: SepPath.steps '/' key
  /-- Through the package root, a key of another mount is reached by the name of the mount. -/
  virtualMount : ∀ base path mount key, rootVirtualMountPath base path = .ok (some (mount, key)) →
    CanonicalPath key ∧ base = [] ∧
      ∃ name, (name = mount.rootName ∨ name = mount.rootName ++ ['%']) ∧
        pathNames path = name :: SepPath.steps '/' key
  /-- The working directory may be left, but not the root above all mounts. -/
  virtualPath : ∀ path absolute, resolveWasiVirtualPath w.runtime.cwd path = .ok absolute →
    CanonicalCwd absolute
  /-- Requests for the same names lead to the same key of the workspace, from whichever
  directory. -/
  sameKey : ∀ fd path base lookup key fd' path' base' lookup' key',
    w.workspaceBasePathForPathRequest fd path = some base →
    w.workspaceBasePathForPathRequest fd' path' = some base' →
    namesFrom base path workspacePreopenPath = namesFrom base' path' workspacePreopenPath →
    resolveMountedPath base path workspacePreopenPath w.writable lookup = .ok key →
    resolveMountedPath base' path' workspacePreopenPath w.writable lookup' = .ok key' → key = key'
  /-- Texts that are spelled as they should be are not refused. -/
  resolves : ∀ fd path base lookup, w.workspaceBasePathForPathRequest fd path = some base →
    Spelled path ∨ (w.writable = true ∧ ∃ rest,
      mountedRelativePath path workspacePreopenPath = some rest ∧ (rest = [] ∨ Spelled rest)) →
    ∃ key, resolveMountedPath base path workspacePreopenPath w.writable lookup = .ok key

variable {w : World} {path : Text} {lookup : Bool}

variable {base : Text}

theorem IsBase.canonicalPath (h : w.IsBase base) (hw : w.CanonicalBases) : CanonicalPath base := by
  obtain ⟨fd, h | h | h | ⟨path, h⟩⟩ := h
  · exact canonicalPath_basePath hw (.inl h)
  · exact canonicalPath_basePath hw (.inr <| .inl h)
  · exact canonicalPath_basePath hw (.inr <| .inr h)
  · exact canonicalPath_workspaceCwdBasePath hw h

/-- A key that is looked up from a directory lies below it. -/
theorem steps_isPrefix_of_resolveScratchPath (h : resolveScratchPath base path lookup = .ok key) :
    SepPath.steps '/' base <+: SepPath.steps '/' key := by
  rw [steps_of_resolveScratchPath h]
  exact List.prefix_append _ _

theorem isPrefix_or_mounted_of_resolveMountedPath {mountPath : Text} {allowAbsolute : Bool}
    (h : resolveMountedPath base path mountPath allowAbsolute lookup = .ok key) :
    SepPath.steps '/' base <+: SepPath.steps '/' key ∨
      (allowAbsolute = true ∧ (mountedRelativePath path mountPath).isSome = true) := by
  unfold resolveMountedPath at h
  split at h
  next rest hrest =>
    cases allowAbsolute with
    | false => cases hrest
    | true => exact .inr ⟨rfl, Option.isSome_iff_exists.2 ⟨rest, hrest⟩⟩
  · split at h
    · cases h
    · exact .inl (steps_isPrefix_of_resolveScratchPath h)

theorem guestPaths (hw : w.CanonicalBases) : w.GuestPaths where
  mounted base hbase path mountPath allowAbsolute lookup key h :=
    ⟨canonicalPath_of_resolveMountedPath (hbase.canonicalPath hw) h,
      isPrefix_or_mounted_of_resolveMountedPath h⟩
  packageRoot base hbase path key h := by
    refine ⟨canonicalPath_of_resolvePackageRootPath (hbase.canonicalPath hw) h, ?_⟩
    exact steps_isPrefix_of_resolveScratchPath h
  virtualMount base path mount key h :=
    ⟨canonicalPath_rootVirtualMountPath h, pathNames_of_rootVirtualMountPath h⟩
  virtualPath path absolute h := canonicalCwd_of_resolveWasiVirtualPath hw.cwd h
  sameKey fd path base lookup key fd' path' base' lookup' key' _ _ hsame h h' := by
    apply steps_injective
    rw [steps_of_resolveMountedPath rfl h, steps_of_resolveMountedPath rfl h', hsame]
  resolves fd path base lookup _ h := by
    rcases h with hspelled | ⟨hwritable, rest, hrest, hspelled⟩
    · rw [resolveMountedPath_of_relative base _ _ _ rfl hspelled.not_isPrefixOf_slash]
      exact exists_resolveScratchPath base lookup hspelled
    · rw [hwritable]
      exact exists_resolveMountedPath_of_absolute base lookup hrest hspelled

end World

namespace System

/-- The paths of every state of a run that moves no directory onto a root. -/
theorem guestPaths_of_run {snapshot : Option World.SnapshotTree}
    {files rootFiles : List PackageFile}
    {cwd : Option Text} {stdin : Bytes} {s : System}
    (hrun : Run step KeepsRootsApart (boot snapshot files rootFiles cwd stdin) s) :
    s.world.GuestPaths :=
  World.guestPaths
    (canonicalBases_of_run (canonicalBases_boot snapshot files rootFiles cwd stdin) hrun).world

/-- The general theorem, applied to a guest that works in a directory it has made. -/
theorem guestPaths_chdir :
    (runAll step emptyBoot [.call (.pathCreateDirectory 3 "a".toList),
      .call (.chdir "/workspace/a".toList)]).world.GuestPaths := by
  have hmake : emptyBoot.KeepsRootsApart (.call (.pathCreateDirectory 3 "a".toList)) :=
    fun _ _ he => nomatch he
  have hchdir : (emptyBoot.step (.call (.pathCreateDirectory 3 "a".toList))).KeepsRootsApart
      (.call (.chdir "/workspace/a".toList)) := fun _ _ he => nomatch he
  have hrun : Run step KeepsRootsApart emptyBoot _ := (Run.start.next _ hmake).next _ hchdir
  exact guestPaths_of_run hrun

/-- A directory of the workspace as the working directory. -/
def insideWorkspace : World :=
  (emptyBoot.world.call (.pathCreateDirectory 3 "a".toList)).call (.chdir "/workspace/a".toList)

/-- A directory below one of `/tmp` is open while the latter is moved onto the root. -/
def movedOntoRoot : World :=
  [.pathCreateDirectory 4 "a".toList, .pathCreateDirectory 4 "a/b".toList,
    .pathOpen 4 0 "a/b".toList oflagsDirectory 0 0 0, .pathRename 4 "a".toList 4 ".".toList].foldl
    World.call emptyBoot.world

/-- A run on a read-only workspace, before its first call. -/
def readOnlyBoot : System := boot none [] [] none []

/-- The working directory is left by `..`; texts with the same names are refused for a doubled
separator behind the mount path, for dots alone, or in a read-only workspace; and behind a directory
that has been moved onto the root no key is canonical. -/
theorem not_guestPaths :
    (insideWorkspace.runtime.cwd = "/workspace/a".toList ∧
      resolveWasiVirtualPath insideWorkspace.runtime.cwd "..".toList = .ok "/workspace".toList ∧
      ¬SepPath.steps '/' "/workspace/a".toList <+: SepPath.steps '/' "/workspace".toList) ∧
    (emptyBoot.world.workspaceBasePathForPathRequest 3 "/workspace//a".toList = some [] ∧
      namesFrom [] "/workspace//a".toList workspacePreopenPath =
        namesFrom [] "a".toList workspacePreopenPath ∧
      resolveMountedPath [] "/workspace//a".toList workspacePreopenPath true false =
        .error .notcapable ∧
      resolveMountedPath [] "a".toList workspacePreopenPath true false = .ok "a".toList) ∧
    (namesFrom [] "./".toList workspacePreopenPath = namesFrom [] ".".toList workspacePreopenPath ∧
      resolveMountedPath [] "./".toList workspacePreopenPath true false = .error .notcapable ∧
      resolveMountedPath [] ".".toList workspacePreopenPath true false = .ok []) ∧
    (readOnlyBoot.world.writable = false ∧
      readOnlyBoot.world.workspaceBasePathForPathRequest 3 "/workspace/a".toList = some [] ∧
      resolveMountedPath [] "/workspace/a".toList workspacePreopenPath false false =
        .error .notcapable) ∧
    (movedOntoRoot.scratchBasePath 5 = some "/b".toList ∧
      resolveMountedPath "/b".toList "c".toList tmpPreopenPath false false = .ok "/b/c".toList ∧
      ¬CanonicalPath "/b/c".toList) := by
  decide

end System

end WasmHost

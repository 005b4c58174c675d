import WasmHost.Wasi.MountedWorkspace
import WasmHost.Web.WebcRoot

/-!
# The package root of a WebC package

The root files of a package, with those that the command catalog adds, become the read-only package
root of its runs. The volumes are mounted without loss when every file has a path of its own below
the mount path of its volume and the files of the catalog change nothing about it.

* `readOnlyPackageRootMount_isDirectory_iff`, `fileAt_foldl_putPackageFile`: what a run finds under
  a key of the package root.
* `rootContent_mergeRootFiles_iff`: when the files of the catalog leave a file of the package alone.
-/

namespace WasmHost

open List

/-! ### What a run finds in the package root -/

theorem below_joinKey {base : Text} (hbase : base ≠ []) (k : Text) :
    SepPath.Below '/' base (joinKey base k) := by
  rw [joinKey, if_neg hbase]
  exact SepPath.below_append base k

theorem slash_mem_of_below {p k : Text} (h : SepPath.Below '/' p k) : '/' ∈ k := by
  obtain ⟨r, rfl⟩ := SepPath.below_iff.1 h
  simp

variable {dir current path : Text} {dirs : OrdSet Text} {segments : List Text}
    {rootFiles : List RootFile}

/-- The loop adds directories above the path. -/
theorem has_addParentDirsFrom (h : ∀ s ∈ segments, s ≠ [])
    (hdir : (addParentDirsFrom current segments dirs).has dir = true) :
    dirs.has dir = true ∨ SepPath.Below '/' dir (joinKey current (['/'].intercalate segments)) := by
  induction segments generalizing current dirs with
  | nil => exact .inl hdir
  | cons s rest ih =>
    cases rest with
    | nil => exact .inl hdir
    | cons t rest =>
      have hs : s ≠ [] := h s mem_cons_self
      have hnext : joinKey current s ≠ [] := by
        unfold joinKey
        split
        · exact hs
        · simp
      -- the rest of the path is joined below the next directory
      have hjoin : joinKey current (['/'].intercalate (s :: t :: rest)) =
          joinKey (joinKey current s) (['/'].intercalate (t :: rest)) := by
        rw [intercalate_cons_cons, joinKey, joinKey, if_neg hnext]
        unfold joinKey
        split <;> simp
      have hstep : addParentDirsFrom current (s :: t :: rest) dirs =
          addParentDirsFrom (joinKey current s) (t :: rest)
            (dirs.set (joinKey current s) ()) := by
        rw [addParentDirsFrom]
        · rw [if_neg hnext]
        · intro h
          cases h
      rw [hstep] at hdir
      rw [hjoin]
      rcases ih (fun x hx => h x (mem_cons_of_mem _ hx)) hdir with hset | hbelow
      · rw [OrdMap.has_set, Bool.or_eq_true, decide_eq_true_eq] at hset
        rcases hset with rfl | hset
        · exact .inr (below_joinKey hnext _)
        · exact .inl hset
      · exact .inr hbelow

theorem has_addParentDirs (hpath : CanonicalKey path)
    (hdir : (addParentDirs dirs path).has dir = true) :
    dirs.has dir = true ∨ SepPath.Below '/' dir path := by
  have h := has_addParentDirsFrom (fun s hs => (hpath s hs).1) hdir
  rwa [joinKey, if_pos rfl, intercalate_splitOn] at h

/-- The directories that a package root has without files. -/
def rootDirectories : List Text := [[], "workspace".toList, "tmp".toList]

theorem has_foldl_addParentDirs (files : List PackageFile)
    (hdir : (files.foldl (fun dirs file => addParentDirs dirs file.path) dirs).has dir = true) :
    dirs.has dir = true ∨ ∃ file ∈ files, SepPath.Below '/' dir file.path := by
  induction files generalizing dirs with
  | nil => exact .inl hdir
  | cons file files ih =>
    rcases ih hdir with h | ⟨other, hother, hbelow⟩
    · rcases has_addParentDirs file.canonical h with h | h
      · exact .inl h
      · exact .inr ⟨file, mem_cons_self, h⟩
    · exact .inr ⟨other, mem_cons_of_mem _ hother, hbelow⟩

theorem has_addParentDirsFrom_of_has (hdir : dirs.has dir = true) :
    (addParentDirsFrom current segments dirs).has dir = true := by
  induction segments generalizing current dirs with
  | nil => exact hdir
  | cons s rest ih =>
    cases rest with
    | nil => exact hdir
    | cons =>
      apply ih
      split
      · exact hdir
      · rw [OrdMap.has_set, hdir, Bool.or_true]

namespace FileTable

variable {t : FileTable}

/-- The object that a package file becomes in a read-only mount. -/
def packageRecord (file : PackageFile) : FileRecord := ⟨file.bytes, some file.path, none, false⟩

/-- The last file counts where the package gives a key twice. -/
theorem fileAt_foldl_putPackageFile (ht : t.Keyed) (files : List PackageFile) (k : Text) :
    (files.foldl putPackageFile t).fileAt k =
      ((files.reverse.find? fun file => file.path = k).map packageRecord).or (t.fileAt k) := by
  induction files using List.reverseRecOn with
  | nil => simp
  | append_singleton files file ih =>
    rw [foldl_append, foldl_cons, foldl_nil, reverse_append,
      reverse_singleton, singleton_append, List.find?_cons]
    have hput := (keyed_putPackageFiles ht files).fileAt_put file.path (packageRecord file) k
    refine hput.trans ?_
    by_cases hk : file.path = k
    · simp [hk]
    · rw [if_neg fun h => hk h.symm, ih]
      simp [hk]

end FileTable


section

variable (records : Heap FileRecord) (files : List PackageFile)

variable (k : Text)

theorem fileAt_readOnlyPackageRootMount :
    (⟨(readOnlyPackageRootMount records files).1,
        (readOnlyPackageRootMount records files).2.mount.files⟩ : FileTable).fileAt k =
      (files.reverse.find? fun file => file.path = k).map FileTable.packageRecord := by
  refine (FileTable.fileAt_foldl_putPackageFile (FileTable.keyed_empty records) files k).trans ?_
  exact Option.or_none

theorem has_readOnlyPackageRootMount_iff :
    (readOnlyPackageRootMount records files).2.mount.files.has k = true ↔
      ∃ file ∈ files, file.path = k := by
  have hfile := congrArg Option.isSome (fileAt_readOnlyPackageRootMount records files k)
  rw [FileTable.fileAt, Option.isSome_map, Option.isSome_map] at hfile
  rw [OrdMap.has, hfile, List.find?_isSome]
  simp

/-- Directories of the package root are those that are always there and those above a file. -/
theorem readOnlyPackageRootMount_isDirectory_iff :
    ((readOnlyPackageRootMount records files).2.mount.dirs.has k = true ∨
        (readOnlyPackageRootMount records files).2.mount.pathHasChildren k = true) ↔
      k ∈ rootDirectories ∨ ∃ file ∈ files, SepPath.Below '/' k file.path := by
  have hbase : ∀ dir, (OrdMap.ofList (rootDirectories.map fun dir => (dir, ()))).has dir = true ↔
      dir ∈ rootDirectories := by
    intro dir
    rw [OrdMap.has_ofList]
    simp
  have hflat : ∀ dir ∈ rootDirectories, '/' ∉ dir := by decide
  rw [Mount.pathHasChildren_iff]
  constructor
  · rintro (hdir | ⟨key, hbelow, hdir | hfile⟩)
    · exact (has_foldl_addParentDirs files hdir).imp_left (hbase k).1
    · rcases has_foldl_addParentDirs files hdir with hkey | ⟨file, hfile, hkey⟩
      · exact absurd (slash_mem_of_below hbelow) (hflat key ((hbase key).1 hkey))
      · exact .inr ⟨file, hfile, hbelow.trans hkey⟩
    · obtain ⟨file, hmem, rfl⟩ := (has_readOnlyPackageRootMount_iff records files key).1 hfile
      exact .inr ⟨file, hmem, hbelow⟩
  · rintro (hk | ⟨file, hfile, hbelow⟩)
    · left
      exact List.foldlRecOn (motive := fun dirs : OrdSet Text => dirs.has k = true) files _
        ((hbase k).2 hk) fun dirs hdirs file _ => has_addParentDirsFrom_of_has hdirs
    · exact .inr ⟨file.path, hbelow, 
        .inr ((has_readOnlyPackageRootMount_iff records files _).2 ⟨file, hfile, rfl⟩)⟩

end

/-- What `openPackageRootPath` finds under a key: directories come first. -/
def rootContent (root : Heap FileRecord × PackageRoot) (key : Text) : Except Errno Bytes :=
  if root.2.mount.dirs.has key = true ∨ root.2.mount.pathHasChildren key = true then .error .isdir
  else
    match root.2.mount.files.get key with
    | none => .error .noent
    | some record => .ok (root.1.get record).bytes

theorem rootContent_readOnlyPackageRootMount (records : Heap FileRecord) (files : List PackageFile)
    (k : Text) :
    rootContent (readOnlyPackageRootMount records files) k =
      if k ∈ rootDirectories ∨ ∃ file ∈ files, SepPath.Below '/' k file.path then .error .isdir
      else
        match files.reverse.find? fun file => file.path = k with
        | none => .error .noent
        | some file => .ok file.bytes := by
  have hfile := fileAt_readOnlyPackageRootMount records files k
  rw [FileTable.fileAt] at hfile
  unfold rootContent
  simp only [readOnlyPackageRootMount_isDirectory_iff]
  split
  · rfl
  cases hget : (readOnlyPackageRootMount records files).2.mount.files.get k with
  | none =>
    rw [hget, Option.map_none] at hfile
    rw [Option.map_eq_none_iff.1 hfile.symm]
  | some =>
    rw [hget, Option.map_some] at hfile
    obtain ⟨file, hfind, hrecord⟩ := Option.map_eq_some_iff.1 hfile.symm
    rw [hfind]
    exact congrArg (fun r : FileRecord => Except.ok r.bytes) hrecord.symm

/-! ### The root files as a package root -/

theorem normalizeWasiFile_of_canonical (h : CanonicalKey path) (bytes : Bytes) :
    normalizeWasiFile path bytes = some ⟨path, bytes, h⟩ := by
  have habsolute : ∀ rest : Text, path ≠ '/' :: rest := by
    rintro rest rfl
    exact h.not_slash_cons
  have hnorm : normalizePackageFilePath path = some path := by
    have hmount : ¬(workspacePreopenPath ++ ['/']).isPrefixOf path = true := by
      intro hfront
      obtain ⟨rest, hrest⟩ := isPrefixOf_iff_prefix.1 hfront
      exact habsolute _ hrest.symm
    have hself : path ≠ workspacePreopenPath := habsolute _
    unfold normalizePackageFilePath
    simp only [hself, hmount, if_false, h.not_isPrefixOf_slash, Bool.false_eq_true]
    exact normalizeRelativeWasiPath_of_canonical h
  unfold normalizeWasiFile
  split
  next key hkey =>
    obtain rfl := Option.some.inj (hnorm.symm.trans hkey)
    rfl
  next hnone => cases hnorm.symm.trans hnone

/-- The package root of `loadRawWasiModulePackage` and of the runs of that package. -/
def packageRootOf (rootFiles : List RootFile) : Option (Heap FileRecord × PackageRoot) :=
  (rootFiles.mapM fun file => normalizeWasiFile file.path file.bytes).map
    (readOnlyPackageRootMount Heap.empty)

/-- What a run finds under a key of the package root. -/
def mountedContent (rootFiles : List RootFile) (key : Text) : Option (Except Errno Bytes) :=
  (packageRootOf rootFiles).map (rootContent · key)

/-- Files with canonical paths are not rejected. -/
theorem exists_packageFiles (h : ∀ file ∈ rootFiles, CanonicalKey file.path) :
    ∃ files, (rootFiles.mapM fun file => normalizeWasiFile file.path file.bytes) = some files ∧
      files.map (fun file => ⟨file.bytes, file.path⟩) = rootFiles := by
  induction rootFiles with
  | nil => exact ⟨[], rfl, rfl⟩
  | cons file rest ih =>
    obtain ⟨files, hfiles, hmap⟩ := ih fun x hx => h x (mem_cons_of_mem _ hx)
    have hfile := normalizeWasiFile_of_canonical (h file mem_cons_self) file.bytes
    refine ⟨⟨file.path, file.bytes, h file mem_cons_self⟩ :: files, ?_, ?_⟩
    · rw [mapM_cons, hfile, hfiles]
      rfl
    · rw [map_cons, hmap]

/-- A key that is a directory of the package root with these files. -/
def IsRootDirectory (files : List RootFile) (key : Text) : Prop :=
  key ∈ rootDirectories ∨ ∃ file ∈ files, SepPath.Below '/' key file.path

/-- The files decide it. -/
instance (files : List RootFile) (key : Text) : Decidable (IsRootDirectory files key) :=
  inferInstanceAs (Decidable (_ ∨ _))

/-- A key is a directory or holds the last file of its path. -/
theorem mountedContent_eq (h : ∀ file ∈ rootFiles, CanonicalKey file.path) (k : Text) :
    mountedContent rootFiles k = some (
      if IsRootDirectory rootFiles k then .error .isdir
      else ((rootFiles.reverse.find? fun file => file.path = k).map RootFile.bytes).elim
        (.error .noent) .ok) := by
  obtain ⟨files, hfiles, rfl⟩ := exists_packageFiles h
  rw [mountedContent, packageRootOf, hfiles, Option.map_some, Option.map_some,
    rootContent_readOnlyPackageRootMount, ← map_reverse, List.find?_map]
  simp only [IsRootDirectory, mem_map, exists_exists_and_eq_and, Function.comp_def]
  cases files.reverse.find? fun file => file.path = k <;> rfl

/-! ### The files of the catalog -/

section

variable {files : List RootFile} {commandCatalog : List (Option Text)} {file : RootFile}

/-- What `mergeRootFiles` adds. -/
def addedFiles (files : List RootFile) (commandCatalog : List (Option Text)) : List RootFile :=
  addFallbackFiles (OrdMap.ofList (files.map fun file => (file.path, ())))
    (catalogCommandRootFiles commandCatalog)

theorem mergeRootFiles_catalogCommandRootFiles :
    mergeRootFiles files (catalogCommandRootFiles commandCatalog) =
      files ++ addedFiles files commandCatalog := rfl

/-- The paths of the catalog that no file of the package has. -/
theorem exists_mem_addedFiles_iff :
    (∃ file ∈ addedFiles files commandCatalog, file.path = path) ↔
      (∀ file ∈ files, file.path ≠ path) ∧ path ≠ [] ∧
        ∃ entry ∈ commandCatalog, catalogCommandRootPath entry = some path := by
  have hfree : (OrdMap.ofList (files.map fun file => (file.path, ()))).has path = false ↔
      ∀ file ∈ files, file.path ≠ path := by
    rw [Bool.eq_false_iff, ne_eq, OrdMap.has_ofList]
    simp
  rw [addedFiles, exists_mem_addFallbackFiles_iff, exists_mem_catalogCommandRootFiles_iff, hfree]

theorem canonicalKey_of_mem_addedFiles (h : file ∈ addedFiles files commandCatalog) :
    CanonicalKey file.path := by
  obtain ⟨-, hne, entry, -, hentry⟩ := exists_mem_addedFiles_iff.1 ⟨file, h, rfl⟩
  exact canonicalKey_of_catalogCommandRootPath hentry hne

theorem isRootDirectory_append {added : List RootFile} {key : Text} :
    IsRootDirectory (files ++ added) key ↔
      IsRootDirectory files key ∨ ∃ file ∈ added, SepPath.Below '/' key file.path := by
  simp only [IsRootDirectory, mem_append, or_and_right, exists_or, or_assoc]

/-- A file of the package stays as it is unless the catalog makes its path a directory. -/
theorem mountedContent_mergeRootFiles_iff (hcanonical : ∀ file ∈ files, CanonicalKey file.path)
    (hfile : file ∈ files) :
    mountedContent (mergeRootFiles files (catalogCommandRootFiles commandCatalog)) file.path =
        mountedContent files file.path ↔
      ∀ entry ∈ commandCatalog, ∀ shim, catalogCommandRootPath entry = some shim →
        SepPath.Below '/' file.path shim → IsRootDirectory files file.path := by
  have hmerged : ∀ other ∈ files ++ addedFiles files commandCatalog, CanonicalKey other.path := by
    intro other hother
    rcases mem_append.1 hother with h | h
    · exact hcanonical other h
    · exact canonicalKey_of_mem_addedFiles h
  -- the last file of the path is a file of the package
  have hlast : (files ++ addedFiles files commandCatalog).reverse.find?
        (fun other => other.path = file.path) =
      files.reverse.find? fun other => other.path = file.path := by
    have hnone : (addedFiles files commandCatalog).reverse.find?
        (fun other => other.path = file.path) = none := by
      refine List.find?_eq_none.2 fun other hother heq => ?_
      have hadded := exists_mem_addedFiles_iff.1 ⟨other, mem_reverse.1 hother, rfl⟩
      exact hadded.1 file hfile (of_decide_eq_true heq).symm
    rw [reverse_append, List.find?_append, hnone, Option.none_or]
  rw [mergeRootFiles_catalogCommandRootFiles, mountedContent_eq hmerged,
    mountedContent_eq hcanonical, hlast]
  simp only [isRootDirectory_append]
  by_cases hdir : IsRootDirectory files file.path
  · simp [hdir]
  · obtain ⟨last, hfind⟩ : ∃ last, files.reverse.find?
        (fun other => other.path = file.path) = some last :=
      Option.isSome_iff_exists.1 (List.find?_isSome.2
        ⟨file, mem_reverse.2 hfile, decide_eq_true rfl⟩)
    simp only [hdir, false_or, if_false, hfind, Option.map_some, Option.elim_some, imp_false]
    have hadded : (∃ other ∈ addedFiles files commandCatalog,
        SepPath.Below '/' file.path other.path) ↔
        ∃ entry ∈ commandCatalog, ∃ shim, catalogCommandRootPath entry = some shim ∧
          SepPath.Below '/' file.path shim := by
      constructor
      · rintro ⟨other, hother, hbelow⟩
        obtain ⟨-, -, entry, hentry, hpath⟩ := exists_mem_addedFiles_iff.1 ⟨other, hother, rfl⟩
        exact ⟨entry, hentry, other.path, hpath, hbelow⟩
      · rintro ⟨entry, hentry, shim, hshim, hbelow⟩
        have hfree : ∀ other ∈ files, other.path ≠ shim := by
          rintro other hother rfl
          exact hdir (.inr ⟨other, hother, hbelow⟩)
        have hne : shim ≠ [] := by
          rintro rfl
          exact absurd (slash_mem_of_below hbelow) not_mem_nil
        obtain ⟨other, hother, rfl⟩ :=
          exists_mem_addedFiles_iff.2 ⟨hfree, hne, entry, hentry, hshim⟩
        exact ⟨other, hother, hbelow⟩
    split
    next hhidden =>
      obtain ⟨entry, hentry, shim, hshim, hbelow⟩ := hadded.1 hhidden
      simp only [reduceCtorEq, Option.some.injEq, false_iff]
      exact fun h => h entry hentry shim hshim hbelow
    next hvisible =>
      simp only [true_iff]
      exact fun entry hentry shim hshim hbelow =>
        hvisible (hadded.2 ⟨entry, hentry, shim, hshim, hbelow⟩)

end

/-! ### Volumes that are mounted without loss -/

/-- A root file holds a file of a volume: with its bytes, under a canonical path below the mount
path that ends like the file's own. -/
structure VolumeFile.Placed (packageBytes : Bytes) (file : VolumeFile) (root : RootFile) :
    Prop where
  inRange : file.InRange packageBytes
  bytes : root.bytes = file.content packageBytes
  canonical : CanonicalKey root.path
  below : ∃ own, own ≠ [] ∧ own <:+ pathNames file.path ∧
    root.path.splitOn '/' = pathNames file.mount.mapping.mountPath ++ own

/-- Two files have the same names: those of the mount path, and behind them those that are left of
the path when the volume and the host path are stripped. -/
def VolumeFile.Clash (file other : VolumeFile) : Prop :=
  file.mountNames ++ file.innerNames = other.mountNames ++ other.innerNames

namespace WebcPackage

variable (package : WebcPackage) (cache : Option (Option Text → Option Bytes))
  (commandCatalog : List (Option Text))

/-- No two mappings have one mount path. -/
def DistinctMountPaths : Prop :=
  (package.webcVolumeMounts.map fun mount => mount.mapping.mountPath).Nodup

/-- Every file of a mapped volume is in the list under its own path, and a run finds it as if the
catalog had added nothing. -/
def MountedWithoutLoss : Prop :=
  ∃ packageBytes files, package.readWebcRootFiles cache = .ok files ∧
    (package.webcVolumeMounts ≠ [] → package.readPackageBytes cache = .ok packageBytes) ∧
    List.Forall₂ (VolumeFile.Placed packageBytes) (volumeFiles package.webcVolumeMounts) files ∧
    (files.map RootFile.path).Nodup ∧
    ∀ file ∈ files,
      mountedContent (mergeRootFiles files (catalogCommandRootFiles commandCatalog)) file.path =
        mountedContent files file.path

/-- The bytes are there, every file has a place, no two files clash, and no path of the catalog
leads through a file. -/
structure Mountable : Prop where
  bytes : package.webcVolumeMounts ≠ [] → ∃ packageBytes,
    package.readPackageBytes cache = .ok packageBytes ∧
      ∀ file ∈ volumeFiles package.webcVolumeMounts, file.InRange packageBytes
  placeable : ∀ file ∈ volumeFiles package.webcVolumeMounts, file.Placeable
  apart : (volumeFiles package.webcVolumeMounts).Pairwise fun file other => ¬file.Clash other
  visible : ∀ file ∈ volumeFiles package.webcVolumeMounts, ∀ entry ∈ commandCatalog, ∀ shim,
    catalogCommandRootPath entry = some shim → SepPath.Below '/' file.place shim →
      file.place ∈ rootDirectories ∨
        ∃ other ∈ volumeFiles package.webcVolumeMounts, SepPath.Below '/' file.place other.place

end WebcPackage

namespace VolumeFile

variable {file other : VolumeFile}

theorem Placeable.names_ne_nil (h : file.Placeable) : file.mountNames ++ file.innerNames ≠ [] :=
  fun hnone => h.1 (append_eq_nil_iff.1 hnone).2

theorem Placeable.canonicalKey (h : file.Placeable) : CanonicalKey file.place :=
  (canonicalKey_intercalate_pathNames h.names_ne_nil fun s hs =>
    ⟨h.2 s hs, not_slash_mem_names hs⟩).1

/-- Files with places clash when they get one place. -/
theorem Placeable.place_eq_iff (hfile : file.Placeable) (hother : other.Placeable) :
    file.place = other.place ↔ file.Clash other :=
  place_eq_place_iff hfile.names_ne_nil hother.names_ne_nil

/-- A root file with the names of the mount path and a name below it comes from a file with a
place. -/
theorem Placed.placeable {packageBytes : Bytes} {root : RootFile}
    (h : file.Placed packageBytes root)
    (hroot : file.rootFile packageBytes = .ok root) : file.Placeable := by
  obtain ⟨rfl, -, hne, hall⟩ := rootFile_eq_ok_iff.1 hroot
  obtain ⟨own, hown, -, hsplit⟩ := h.below
  rw [show RootFile.path _ = file.place from rfl, splitOn_place hne] at hsplit
  have hinner : file.innerNames = own := append_cancel_left hsplit
  exact ⟨hinner ▸ hown, hall⟩

theorem Placeable.placed (h : file.Placeable) {packageBytes : Bytes}
    (hrange : file.InRange packageBytes) :
    file.Placed packageBytes ⟨file.content packageBytes, file.place⟩ where
  inRange := hrange
  bytes := rfl
  canonical := h.canonicalKey
  below := ⟨file.innerNames, h.1, file.mount.suffix_pathNames_strippedPath file.path,
    splitOn_place h.names_ne_nil⟩

/-- The root file of a file with a place. -/
def placedFile (packageBytes : Bytes) (file : VolumeFile) : RootFile :=
  ⟨file.content packageBytes, file.place⟩

variable {packageBytes : Bytes} {volume : List VolumeFile}

theorem eq_map_placedFile {files : List RootFile}
    (h : List.Forall₂ (fun (file : VolumeFile) root => file.rootFile packageBytes = .ok root)
      volume files) : files = volume.map (placedFile packageBytes) := by
  induction h with
  | nil => rfl
  | cons hroot _ ih =>
    obtain ⟨rfl, -⟩ := rootFile_eq_ok_iff.1 hroot
    rw [map_cons, ← ih]
    rfl

/-- Files with places get paths of their own when no two of them clash. -/
theorem nodup_map_place_iff (hplace : ∀ file ∈ volume, file.Placeable) :
    (volume.map place).Nodup ↔ volume.Pairwise fun file other => ¬file.Clash other := by
  rw [List.Nodup, pairwise_map]
  exact List.Pairwise.iff_of_mem fun {a b} ha hb =>
    not_congr ((hplace a ha).place_eq_iff (hplace b hb))

/-- A run finds the files as if the catalog had added nothing when no path of the catalog leads
through one of them. -/
theorem mountedContent_placedFiles_iff (hplace : ∀ file ∈ volume, file.Placeable)
    (commandCatalog : List (Option Text)) :
    (∀ root ∈ volume.map (placedFile packageBytes),
      mountedContent (mergeRootFiles (volume.map (placedFile packageBytes))
          (catalogCommandRootFiles commandCatalog)) root.path =
        mountedContent (volume.map (placedFile packageBytes)) root.path) ↔
      ∀ file ∈ volume, ∀ entry ∈ commandCatalog, ∀ shim,
        catalogCommandRootPath entry = some shim → SepPath.Below '/' file.place shim →
          file.place ∈ rootDirectories ∨
            ∃ other ∈ volume, SepPath.Below '/' file.place other.place := by
  have hcanonical : ∀ root ∈ volume.map (placedFile packageBytes), CanonicalKey root.path :=
    forall_mem_map.2 fun file hfile => (hplace file hfile).canonicalKey
  have hdirectory : ∀ key, IsRootDirectory (volume.map (placedFile packageBytes)) key ↔
      key ∈ rootDirectories ∨ ∃ other ∈ volume, SepPath.Below '/' key other.place := by
    intro key
    simp only [IsRootDirectory, mem_map, exists_exists_and_eq_and]
    rfl
  rw [forall_mem_map]
  refine forall₂_congr fun file hfile => ?_
  rw [mountedContent_mergeRootFiles_iff hcanonical (mem_map_of_mem hfile)]
  simp only [hdirectory]
  rfl

end VolumeFile

/-- The volumes of a package are mounted without loss when the bytes of the files are there, every
file keeps a name below the mount path, no two files clash, and no path of the catalog leads
through a file. -/
theorem mountedWithoutLoss_iff (package : WebcPackage)
    (cache : Option (Option Text → Option Bytes)) (commandCatalog : List (Option Text)) :
    package.MountedWithoutLoss cache commandCatalog ↔
      package.Mountable cache commandCatalog := by
  constructor
  · rintro ⟨packageBytes, files, hread, hbytes, hplaced, hnodup, hvisible⟩
    have hroot : List.Forall₂
        (fun (file : VolumeFile) root => file.rootFile packageBytes = .ok root)
        (volumeFiles package.webcVolumeMounts) files := by
      obtain ⟨packageBytes', hbytes', hroot⟩ := WebcPackage.readWebcRootFiles_eq_ok_iff.1 hread
      by_cases hmounts : package.webcVolumeMounts = []
      · rw [hmounts] at hplaced ⊢
        rw [List.forall₂_nil_left_iff.1 hplaced]
        exact .nil
      · obtain rfl := Except.ok.inj ((hbytes hmounts).symm.trans (hbytes' hmounts))
        exact hroot
    obtain rfl := VolumeFile.eq_map_placedFile hroot
    rw [List.forall₂_map_right_iff, List.forall₂_same] at hplaced hroot
    have hplace : ∀ file ∈ volumeFiles package.webcVolumeMounts, file.Placeable :=
      fun file hfile => (hplaced file hfile).placeable (hroot file hfile)
    rw [map_map] at hnodup
    exact
      { bytes := fun hmounts =>
          ⟨packageBytes, hbytes hmounts, fun file hfile => (hplaced file hfile).inRange⟩
        placeable := hplace
        apart := (VolumeFile.nodup_map_place_iff hplace).1 hnodup
        visible := (VolumeFile.mountedContent_placedFiles_iff hplace commandCatalog).1 hvisible }
  · rintro ⟨hbytes, hplace, hapart, hvisible⟩
    obtain ⟨packageBytes, hread, hrange⟩ : ∃ packageBytes,
        (package.webcVolumeMounts ≠ [] → package.readPackageBytes cache = .ok packageBytes) ∧
          ∀ file ∈ volumeFiles package.webcVolumeMounts, file.InRange packageBytes := by
      by_cases hmounts : package.webcVolumeMounts = []
      · refine ⟨[], fun h => absurd hmounts h, fun file hfile => ?_⟩
        rw [hmounts] at hfile
        cases hfile
      · obtain ⟨packageBytes, hread, hrange⟩ := hbytes hmounts
        exact ⟨packageBytes, fun _ => hread, hrange⟩
    refine ⟨packageBytes, (volumeFiles package.webcVolumeMounts).map
      (VolumeFile.placedFile packageBytes), ?_, hread, ?_, ?_, ?_⟩
    · refine WebcPackage.readWebcRootFiles_eq_ok_iff.2 ⟨packageBytes, hread, ?_⟩
      rw [List.forall₂_map_right_iff, List.forall₂_same]
      exact fun file hfile => VolumeFile.rootFile_eq_ok_iff.2
        ⟨rfl, hrange file hfile, (hplace file hfile).names_ne_nil, (hplace file hfile).2⟩
    · rw [List.forall₂_map_right_iff, List.forall₂_same]
      exact fun file hfile => (hplace file hfile).placed (hrange file hfile)
    · rw [map_map]
      exact (VolumeFile.nodup_map_place_iff hplace).2 hapart
    · exact (VolumeFile.mountedContent_placedFiles_iff hplace commandCatalog).2 hvisible

/-- A volume with the directory that the mapping names, and with a file of one name in both. -/
def nestedRootfs : WebcPackage where
  bytes := some [1, 2]
  packageBytesKey := none
  filesystem := [⟨none, some "rootfs".toList, "/".toList, "rootfs".toList⟩]
  volumes := fun name =>
    if name = "rootfs".toList then
      some ⟨"rootfs".toList,
        OrdMap.ofList [("/a".toList, ⟨0, 1⟩), ("/rootfs/a".toList, ⟨1, 1⟩)]⟩
    else none

/-- Both files get the path `a`. -/
theorem not_mountedWithoutLoss_nestedRootfs :
    nestedRootfs.DistinctMountPaths ∧ ¬nestedRootfs.MountedWithoutLoss none [] := by
  refine ⟨nodup_singleton _, ?_⟩
  rintro ⟨-, files, hread, -, -, hnodup, -⟩
  have hfiles : nestedRootfs.readWebcRootFiles none =
      .ok [⟨[1], ['a']⟩, ⟨[2], ['a']⟩] := by rfl
  obtain rfl := Except.ok.inj (hfiles.symm.trans hread)
  exact absurd hnodup (by decide)

end WasmHost

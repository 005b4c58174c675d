import WasmHost.Lib.Except
import WasmHost.PathNames
import WasmHost.Text
import WasmHost.Wasi.Io

/-!
# The root files of a WebC package

`webc-wasix.js` from the volumes of a package to the files of its root: the path of a file loses
the name of its volume and the host path of the mapping, where they stand in front, and goes below
the mount path. Paths are given here by the names along them.

* `mountedPackageRootPath_eq_ok_iff`: which path a file of a volume gets.
* `readWebcRootFiles_eq_ok_iff`: what the list of the root files is.
* `mem_catalogCommandRootFiles_iff`: which files the command catalog adds.
-/

namespace WasmHost

open SepPath List

/-- A range of bytes. -/
structure ByteSpan where
  offset : ℕ
  length : ℕ

/-- A volume with its files by path. -/
structure WebcVolume where
  name : Text
  files : OrdMap Text ByteSpan

/-- A mapping of the manifest. `origin` is its `from`. -/
structure FilesystemMapping where
  origin : Option Text
  hostPath : Option Text
  mountPath : Text
  volumeName : Text

/-- What is read of the package of a request. `volumes` is the access to a property by name. -/
structure WebcPackage where
  bytes : Option Bytes
  packageBytesKey : Option Text
  filesystem : List FilesystemMapping
  volumes : Text → Option WebcVolume

/-- What `webcWasixError` makes. -/
structure WebcWasixError where
  kind : Text
  message : Text
  stage : Text

/-- A volume with its mapping. -/
structure WebcVolumeMount where
  mapping : FilesystemMapping
  volume : WebcVolume

/-- A file of the package root. -/
structure RootFile where
  bytes : Bytes
  path : Text

/-- `trimSlashes` of a text. -/
def trimSlashes (value : Text) : Text := (value.dropWhile (· = '/')).rdropWhile (· = '/')

/-- The path without its front. -/
def stripPathPrefix (path front : Text) : Text :=
  if front = [] then path
  else if path = front then []
  else if (front ++ ['/']).isPrefixOf path then path.drop (front.length + 1)
  else path

/-- The loop of `joinPackageRootPath`. -/
def joinedSegments : List Text → Option (List Text)
  | [] => some []
  | segment :: rest =>
      if segment = [] ∨ segment = ['.'] then joinedSegments rest
      else if segment = ['.', '.'] ∨ '\x00' ∈ segment then none
      else (joinedSegments rest).map (segment :: ·)

/-- A path below a mount. -/
def joinPackageRootPath (mountPath path : Text) : Option Text :=
  let joined := ['/'].intercalate ([mountPath, path].filter (· ≠ []))
  (joinedSegments (joined.splitOn '/')).map (['/'].intercalate)

namespace WebcVolumeMount

/-- The path of a file without the name of the volume and the host path in front. -/
def strippedPath (mount : WebcVolumeMount) (filePath : Text) : Text :=
  stripPathPrefix
    (stripPathPrefix (trimSlashes filePath) (trimSlashes mount.volume.name))
    (trimSlashes (mount.mapping.hostPath.getD []))

end WebcVolumeMount

/-- `WEBC_WASIX_VOLUME_SPAN_INVALID_KIND` at the loading of the package. -/
def volumeSpanInvalid (message : Text) : WebcWasixError :=
  ⟨"webc_wasix_volume_span_invalid".toList, message, "package_load".toList⟩

/-- The path of a file in the package root. -/
def mountedPackageRootPath (filePath : Text) (mount : WebcVolumeMount) :
    Except WebcWasixError Text :=
  match joinPackageRootPath (trimSlashes mount.mapping.mountPath) (mount.strippedPath filePath) with
  | none | some [] => .error
      (volumeSpanInvalid ("browser WebC volume file path is invalid for ".toList ++ filePath))
  | some path => .ok path

/-- The bytes of a span. -/
def bytesFromSpan (packageBytes : Bytes) (span : ByteSpan) (path : Text) :
    Except WebcWasixError Bytes :=
  if span.offset ≤ maxSafeInteger ∧ span.length ≤ maxSafeInteger ∧
      span.offset + span.length ≤ packageBytes.length then
    .ok ((packageBytes.drop span.offset).take span.length)
  else .error
    (volumeSpanInvalid ("browser WebC volume file span is invalid for ".toList ++ path))

namespace WebcPackage

/-- The mounts of a package. -/
def webcVolumeMounts (package : WebcPackage) : List WebcVolumeMount :=
  package.filesystem.filterMap fun mapping =>
    if mapping.origin.getD [] ≠ [] then none
    else (package.volumes mapping.volumeName).map (⟨mapping, ·⟩)

/-- The cache, where there is one, is given by what it answers to a key. -/
def readPackageBytes (package : WebcPackage) (cache : Option (Option Text → Option Bytes)) :
    Except WebcWasixError Bytes :=
  match package.bytes with
  | some bytes => .ok bytes
  | none =>
      match cache with
      | none => .error ⟨"webc_wasix_package_bytes_unavailable".toList,
          "browser WebC package byte cache is unavailable".toList, "package_load".toList⟩
      | some getPackageBytes =>
          match getPackageBytes package.packageBytesKey with
          | some bytes => .ok bytes
          | none => .error ⟨"webc_wasix_package_bytes_missing".toList,
              "browser WebC package bytes are missing from cache: ".toList ++
                package.packageBytesKey.getD [], "package_load".toList⟩

end WebcPackage

/-- A file of a mapped volume. -/
structure VolumeFile where
  mount : WebcVolumeMount
  path : Text
  span : ByteSpan

/-- The files that the two loops of `readWebcRootFiles` go through. -/
def volumeFiles (mounts : List WebcVolumeMount) : List VolumeFile :=
  mounts.flatMap fun mount => mount.volume.files.entries.map fun e => ⟨mount, e.1, e.2⟩

namespace VolumeFile

/-- The body of the loops. -/
def rootFile (packageBytes : Bytes) (file : VolumeFile) : Except WebcWasixError RootFile := do
  let bytes ← bytesFromSpan packageBytes file.span file.path
  let path ← mountedPackageRootPath file.path file.mount
  return ⟨bytes, path⟩

end VolumeFile

namespace WebcPackage

/-- The files of a package. -/
def readWebcRootFiles (package : WebcPackage) (cache : Option (Option Text → Option Bytes)) :
    Except WebcWasixError (List RootFile) :=
  let mounts := package.webcVolumeMounts
  if mounts.isEmpty then .ok []
  else do
    let packageBytes ← package.readPackageBytes cache
    (volumeFiles mounts).mapM (VolumeFile.rootFile packageBytes)

end WebcPackage

/-! ### The files of the command catalog -/

/-- `COMMAND_SHIM_BYTES`. -/
def commandShimBytes : Bytes := encodeText "# wasm-host packaged command\n".toList

/-- `none` also stands for a path that is no text. -/
def catalogCommandRootPath (pathValue : Option Text) : Option Text :=
  match pathValue with
  | none => none
  | some path =>
      if ['/'].isPrefixOf path then joinPackageRootPath [] (trimSlashes path) else none

/-- The loop of `catalogCommandRootFiles` over the paths of the entries. -/
def catalogCommandRootFilesFrom (seen : OrdSet Text) : List (Option Text) → List RootFile
  | [] => []
  | entry :: rest =>
      match catalogCommandRootPath entry with
      | none => catalogCommandRootFilesFrom seen rest
      | some path =>
          if path = [] ∨ seen.has path = true then catalogCommandRootFilesFrom seen rest
          else ⟨commandShimBytes, path⟩ :: catalogCommandRootFilesFrom (seen.set path ()) rest

def catalogCommandRootFiles (commandCatalog : List (Option Text)) : List RootFile :=
  catalogCommandRootFilesFrom OrdMap.empty commandCatalog

/-- The second loop of `mergeRootFiles`. -/
def addFallbackFiles (paths : OrdSet Text) : List RootFile → List RootFile
  | [] => []
  | file :: rest =>
      if paths.has file.path = true then addFallbackFiles paths rest
      else file :: addFallbackFiles (paths.set file.path ()) rest

/-- The files of both, the first ones where they meet. -/
def mergeRootFiles (primaryFiles fallbackFiles : List RootFile) : List RootFile :=
  primaryFiles ++ addFallbackFiles
    (OrdMap.ofList (primaryFiles.map fun file => (file.path, ()))) fallbackFiles

/-! ### The names along a path -/

@[simp]
theorem pathNames_trimSlashes (value : Text) : pathNames (trimSlashes value) = pathNames value := by
  have hslash : ∀ c : Char, decide (c = '/') = true → c = '/' := fun _ => of_decide_eq_true
  rw [pathNames, trimSlashes, names_rdropWhile isNamed_nil hslash,
    names_dropWhile isNamed_nil hslash]
  rfl

/-- What is taken away in front of a path is nothing or the names of the directory. -/
theorem pathNames_stripPathPrefix (path front : Text) :
    pathNames path = pathNames (stripPathPrefix path front) ∨
      pathNames path = pathNames front ++ pathNames (stripPathPrefix path front) := by
  unfold stripPathPrefix
  split
  · exact .inl rfl
  split
  next heq =>
    right
    rw [heq, pathNames_nil, append_nil]
  · split
    next hfront =>
      right
      obtain ⟨rest, rfl⟩ := isPrefixOf_iff_prefix.1 hfront
      have hdrop : (front ++ ['/'] ++ rest).drop (front.length + 1) = rest :=
        drop_left' (by simp)
      rw [hdrop, append_assoc, singleton_append]
      exact names_append_sep front rest
    · exact .inl rfl

theorem suffix_pathNames_stripPathPrefix (path front : Text) :
    pathNames (stripPathPrefix path front) <:+ pathNames path := by
  rcases pathNames_stripPathPrefix path front with h | h
  · rw [← h]
  · rw [h]
    exact suffix_append _ _

/-- The names along a stripped path are the last names along the path. -/
theorem WebcVolumeMount.suffix_pathNames_strippedPath (mount : WebcVolumeMount) (filePath : Text) :
    pathNames (mount.strippedPath filePath) <:+ pathNames filePath := by
  have htrim := suffix_pathNames_stripPathPrefix (trimSlashes filePath)
    (trimSlashes mount.volume.name)
  rw [pathNames_trimSlashes] at htrim
  exact (suffix_pathNames_stripPathPrefix _ _).trans htrim

theorem joinedSegments_eq_some_iff {segments joined : List Text} :
    joinedSegments segments = some joined ↔
      joined = segments.filter isNamed ∧ ∀ s ∈ joined, CanonicalSegment s := by
  induction segments generalizing joined with
  | nil =>
    simp only [joinedSegments, Option.some.injEq, filter_nil]
    constructor
    · rintro rfl
      exact ⟨rfl, fun s hs => by cases hs⟩
    · rintro ⟨rfl, -⟩
      rfl
  | cons s rest ih =>
    unfold joinedSegments
    split
    next hs =>
      rw [ih, filter_cons_of_neg (by simpa [isNamed, imp_iff_not_or] using hs)]
    next hs =>
      push Not at hs
      rw [filter_cons_of_pos (by simpa [isNamed] using hs)]
      split
      next hbad =>
        simp only [reduceCtorEq, false_iff]
        rintro ⟨rfl, hall⟩
        obtain ⟨-, -, hdots, hnul⟩ := hall s mem_cons_self
        exact hbad.elim hdots hnul
      next hgood =>
        push Not at hgood
        have hcanonical : CanonicalSegment s := ⟨hs.1, hs.2, hgood.1, hgood.2⟩
        rw [Option.map_eq_some_iff]
        constructor
        · rintro ⟨joined, hjoined, rfl⟩
          obtain ⟨rfl, hall⟩ := ih.1 hjoined
          exact ⟨rfl, forall_mem_cons.2 ⟨hcanonical, hall⟩⟩
        · rintro ⟨rfl, hall⟩
          exact ⟨_, ih.2 ⟨rfl, fun t ht => hall t (mem_cons_of_mem _ ht)⟩, rfl⟩

variable {path : Text}

/-- A joined path consists of the names along its two parts, which must all be plain. -/
theorem joinPackageRootPath_eq_some_iff {mountPath joined : Text} :
    joinPackageRootPath mountPath path = some joined ↔
      joined = ['/'].intercalate (pathNames mountPath ++ pathNames path) ∧
        ∀ s ∈ pathNames mountPath ++ pathNames path, CanonicalSegment s := by
  have hnames : ((['/'].intercalate ([mountPath, path].filter (· ≠ []))).splitOn '/').filter
      isNamed = pathNames mountPath ++ pathNames path :=
    names_intercalate_filter isNamed_nil mountPath path
  unfold joinPackageRootPath
  rw [Option.map_eq_some_iff]
  constructor
  · rintro ⟨segments, hsegments, rfl⟩
    obtain ⟨rfl, hall⟩ := joinedSegments_eq_some_iff.1 hsegments
    rw [hnames] at hall ⊢
    exact ⟨rfl, hall⟩
  · rintro ⟨rfl, hall⟩
    exact ⟨_, joinedSegments_eq_some_iff.2 ⟨hnames.symm, hall⟩, rfl⟩

/-- Plain names make a canonical key, and the key has these names. -/
theorem canonicalKey_intercalate_pathNames {names : List Text} (hne : names ≠ [])
    (h : ∀ s ∈ names, CanonicalSegment s ∧ '/' ∉ s) :
    CanonicalKey (['/'].intercalate names) ∧ (['/'].intercalate names).splitOn '/' = names := by
  have hsplit := splitOn_join hne fun s hs => (h s hs).2
  refine ⟨fun s hs => ?_, hsplit⟩
  rw [hsplit] at hs
  exact (h s hs).1

/-! ### The list of the root files -/

namespace VolumeFile

/-- The names along the mount path. -/
def mountNames (file : VolumeFile) : List Text := pathNames file.mount.mapping.mountPath

/-- The names along the path of the file below the mount path. -/
def innerNames (file : VolumeFile) : List Text := pathNames (file.mount.strippedPath file.path)

/-- The file has a place below the mount path. -/
def Placeable (file : VolumeFile) : Prop :=
  file.innerNames ≠ [] ∧ ∀ s ∈ file.mountNames ++ file.innerNames, CanonicalSegment s

/-- The path of a file in the root. -/
def place (file : VolumeFile) : Text := ['/'].intercalate (file.mountNames ++ file.innerNames)

variable {file : VolumeFile}

theorem not_slash_mem_names {s : Text} (h : s ∈ file.mountNames ++ file.innerNames) : '/' ∉ s := by
  rcases mem_append.1 h with h | h <;> exact not_slash_mem_pathNames h

theorem splitOn_place (hne : file.mountNames ++ file.innerNames ≠ []) :
    file.place.splitOn '/' = file.mountNames ++ file.innerNames :=
  splitOn_join hne fun _ hs => not_slash_mem_names hs

theorem place_eq_place_iff {other : VolumeFile} (hfile : file.mountNames ++ file.innerNames ≠ [])
    (hother : other.mountNames ++ other.innerNames ≠ []) :
    file.place = other.place ↔
      file.mountNames ++ file.innerNames = other.mountNames ++ other.innerNames := by
  constructor
  · intro h
    rw [← splitOn_place hfile, h, splitOn_place hother]
  · intro h
    rw [place, h]
    rfl

/-- A file gets the names of the mount path and its own, unless one of them is not plain. -/
theorem mountedPackageRootPath_eq_ok_iff :
    mountedPackageRootPath file.path file.mount = .ok path ↔
      path = file.place ∧ file.mountNames ++ file.innerNames ≠ [] ∧
        ∀ s ∈ file.mountNames ++ file.innerNames, CanonicalSegment s := by
  have hjoin := fun joined => @joinPackageRootPath_eq_some_iff
    (file.mount.strippedPath file.path) (trimSlashes file.mount.mapping.mountPath) joined
  rw [pathNames_trimSlashes] at hjoin
  change ∀ joined, _ ↔ joined = file.place ∧ _ at hjoin
  unfold mountedPackageRootPath
  constructor
  · intro h
    split at h
    · cases h
    · cases h
    next joined hnonempty hjoined =>
      obtain rfl := Except.ok.inj h
      obtain ⟨hplace, hall⟩ := (hjoin joined).1 hjoined
      refine ⟨hplace, fun hnone => hnonempty ?_, hall⟩
      rw [hplace, place, hnone]
      rfl
  · rintro ⟨rfl, hne, hall⟩
    have hkey : CanonicalKey file.place :=
      (canonicalKey_intercalate_pathNames hne fun s hs => ⟨hall s hs, not_slash_mem_names hs⟩).1
    rw [(hjoin file.place).2 ⟨rfl, hall⟩]
    split
    next hnone => cases hnone
    next hempty => exact absurd (Option.some.inj hempty) hkey.ne_nil
    next path _ hpath => rw [Option.some.inj hpath]

/-- The bytes of the package that the file consists of. -/
def content (packageBytes : Bytes) (file : VolumeFile) : Bytes :=
  (packageBytes.drop file.span.offset).take file.span.length

/-- The span of the file lies in the bytes of the package, at numbers that are exact. -/
def InRange (packageBytes : Bytes) (file : VolumeFile) : Prop :=
  file.span.offset ≤ maxSafeInteger ∧ file.span.length ≤ maxSafeInteger ∧
    file.span.offset + file.span.length ≤ packageBytes.length

theorem rootFile_eq_ok_iff {packageBytes : Bytes} {root : RootFile} :
    file.rootFile packageBytes = .ok root ↔
      root = ⟨file.content packageBytes, file.place⟩ ∧ file.InRange packageBytes ∧
        file.mountNames ++ file.innerNames ≠ [] ∧
        ∀ s ∈ file.mountNames ++ file.innerNames, CanonicalSegment s := by
  have hspan : ∀ bytes, bytesFromSpan packageBytes file.span file.path = .ok bytes ↔
      file.InRange packageBytes ∧ bytes = file.content packageBytes := by
    intro bytes
    unfold bytesFromSpan
    split
    next h => simp [InRange, content, h, eq_comm]
    next h => simp [InRange, h]
  constructor
  · intro h
    obtain ⟨bytes, hbytes, h⟩ := Except.bind_eq_ok_iff.1 h
    obtain ⟨path, hpath, h⟩ := Except.bind_eq_ok_iff.1 h
    obtain ⟨hrange, rfl⟩ := (hspan bytes).1 hbytes
    obtain ⟨rfl, hne, hall⟩ := mountedPackageRootPath_eq_ok_iff.1 hpath
    exact ⟨(Except.ok.inj h).symm, hrange, hne, hall⟩
  · rintro ⟨rfl, hrange, hne, hall⟩
    refine Except.bind_eq_ok_iff.2 ⟨_, (hspan _).2 ⟨hrange, rfl⟩, ?_⟩
    exact Except.bind_eq_ok_iff.2 ⟨_, mountedPackageRootPath_eq_ok_iff.2 ⟨rfl, hne, hall⟩, rfl⟩

end VolumeFile

namespace WebcPackage

variable {package : WebcPackage} {cache : Option (Option Text → Option Bytes)}
  {files : List RootFile}

theorem volumeFiles_eq_nil_of_isEmpty {mounts : List WebcVolumeMount} (h : mounts.isEmpty = true) :
    volumeFiles mounts = [] := by
  rw [isEmpty_iff.1 h]
  rfl

/-- The list has one file for each file of a mapped volume; the bytes of the package are read when
some volume is mapped. -/
theorem readWebcRootFiles_eq_ok_iff :
    package.readWebcRootFiles cache = .ok files ↔
      ∃ packageBytes,
        (package.webcVolumeMounts ≠ [] → package.readPackageBytes cache = .ok packageBytes) ∧
        List.Forall₂ (fun (file : VolumeFile) root => file.rootFile packageBytes = .ok root)
          (volumeFiles package.webcVolumeMounts) files := by
  unfold readWebcRootFiles
  dsimp only
  split
  next hempty =>
    rw [volumeFiles_eq_nil_of_isEmpty hempty]
    simp only [isEmpty_iff.1 hempty, List.forall₂_nil_left_iff, ne_eq, not_true_eq_false,
      false_imp_iff, true_and, exists_const, Except.ok.injEq, eq_comm]
  next hsome =>
    have hne : package.webcVolumeMounts ≠ [] := fun h => hsome (isEmpty_iff.2 h)
    constructor
    · intro h
      obtain ⟨packageBytes, hbytes, h⟩ := Except.bind_eq_ok_iff.1 h
      exact ⟨packageBytes, fun _ => hbytes, Except.mapM_eq_ok_iff.1 h⟩
    · rintro ⟨packageBytes, hbytes, hall⟩
      exact Except.bind_eq_ok_iff.2 ⟨packageBytes, hbytes hne, Except.mapM_eq_ok_iff.2 hall⟩

end WebcPackage

/-! ### The files that are added -/

theorem canonicalKey_of_catalogCommandRootPath {entry : Option Text}
    (h : catalogCommandRootPath entry = some path) (hne : path ≠ []) : CanonicalKey path := by
  unfold catalogCommandRootPath at h
  split at h
  · cases h
  split at h
  · obtain ⟨rfl, hall⟩ := joinPackageRootPath_eq_some_iff.1 h
    rw [pathNames_nil, nil_append, pathNames_trimSlashes] at hall hne ⊢
    refine (canonicalKey_intercalate_pathNames (fun hnone => hne ?_) fun s hs =>
      ⟨hall s hs, not_slash_mem_pathNames hs⟩).1
    rw [hnone]
    rfl
  · cases h

/-- The path of a file that the catalog adds. -/
theorem exists_mem_catalogCommandRootFilesFrom_iff {seen : OrdSet Text}
    {entries : List (Option Text)} :
    (∃ file ∈ catalogCommandRootFilesFrom seen entries, file.path = path) ↔
      seen.has path = false ∧ path ≠ [] ∧
        ∃ entry ∈ entries, catalogCommandRootPath entry = some path := by
  induction entries generalizing seen with
  | nil => simp [catalogCommandRootFilesFrom]
  | cons entry rest ih =>
    unfold catalogCommandRootFilesFrom
    split
    next hnone =>
      rw [ih]
      simp [hnone]
    next p hp =>
      simp only [exists_mem_cons_iff, hp, Option.some.injEq]
      split
      next hskip =>
        rw [ih]
        grind
      next hkeep =>
        simp only [exists_mem_cons_iff, ih, OrdMap.has_set]
        grind

theorem exists_mem_catalogCommandRootFiles_iff {commandCatalog : List (Option Text)} :
    (∃ file ∈ catalogCommandRootFiles commandCatalog, file.path = path) ↔
      path ≠ [] ∧ ∃ entry ∈ commandCatalog, catalogCommandRootPath entry = some path := by
  rw [catalogCommandRootFiles, exists_mem_catalogCommandRootFilesFrom_iff]
  simp

/-- A file is added unless its path is taken. -/
theorem exists_mem_addFallbackFiles_iff {paths : OrdSet Text} {files : List RootFile} :
    (∃ file ∈ addFallbackFiles paths files, file.path = path) ↔
      paths.has path = false ∧ ∃ file ∈ files, file.path = path := by
  induction files generalizing paths with
  | nil => simp [addFallbackFiles]
  | cons file rest ih =>
    unfold addFallbackFiles
    split
    next htaken =>
      rw [ih, exists_mem_cons_iff]
      grind
    next hfree =>
      simp only [exists_mem_cons_iff, ih, OrdMap.has_set]
      grind

end WasmHost

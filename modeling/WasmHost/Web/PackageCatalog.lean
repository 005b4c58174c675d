import WasmHost.Lib.Except
import WasmHost.Lib.OrdMap
import WasmHost.Web.CommandMessages

/-!
# The command catalog

`createPackageCatalog` of `command-worker.js`: the commands of the loaded packages by the paths
under which they are found. A bare name is found in each directory of the default path.

* `mem_catalogEntriesForPackage`: the entries of a package.
* `Catalogs.mem_iff`: a catalog that could be made has exactly the entries of its packages.
* `Catalogs.resolve_bare`: it finds each bare name of a package.
-/

namespace WasmHost

open List

/-- `DEFAULT_COMMAND_PATH`. -/
def defaultCommandPath : Text := "/bin:/usr/bin".toList

/-- A package as it is registered; what its executor alone reads is left out. -/
structure PackageRecord where
  id : Text
  type : Text
  commands : List Text
  artifactKind : Option Text
  contentSha256 : Option Text
  entrypoint : Text

/-- An entry of the package catalog. -/
structure CatalogEntry where
  command : Text
  packageId : Text
  packageType : Text
  path : Text
  deriving DecidableEq

/-- The segments are those that `keptSegments` keeps. -/
def PackageCatalog.normalizeCommandPath (value : Text) : Option Text :=
  let text := trim value
  if ¬['/'].isPrefixOf text = true ∨ '\x00' ∈ text then none
  else
    match keptSegments (text.splitOn '/') with
    | none => none
    | some segments => if segments = [] then none else some ('/' :: ['/'].intercalate segments)

/-- The directories of a path that can be used. -/
def usableCommandDirs (value : Text) : List Text :=
  (value.splitOn ':').filterMap PackageCatalog.normalizeCommandPath

/-- The directories that are searched. -/
def commandPathDirs (pathValue : Option Text) (fallbackToDefault : Bool) : List Text :=
  let dirs := usableCommandDirs (pathValue.getD defaultCommandPath)
  if dirs ≠ [] then dirs
  else if fallbackToDefault then usableCommandDirs defaultCommandPath else []

/-- The paths that a command is found under. -/
def catalogPathsForCommand (value : Text) : List Text :=
  let text := trim value
  if text = [] ∨ '\x00' ∈ text then []
  else if ['/'].isPrefixOf text then (PackageCatalog.normalizeCommandPath text).toList
  else if '/' ∈ text then []
  else (commandPathDirs (some defaultCommandPath) true).map fun dir => dir ++ '/' :: text

/-- The paths that a lookup tries. -/
def catalogLookupPaths (command : Text) (pathValue : Option Text) :
    Except CommandError (List Text) := do
  let text ← nonEmptyString (some command) "command_resolution"
  if '\x00' ∈ text then
    .error (.invalidRequest "browser command fields must not contain NUL bytes"
      "command_resolution")
  else if ['/'].isPrefixOf text then return (PackageCatalog.normalizeCommandPath text).toList
  else if '/' ∈ text then return []
  else
    let searchPath := pathValue.getD defaultCommandPath
    return (commandPathDirs (some searchPath) pathValue.isNone).map fun dir => dir ++ '/' :: text

/-- The text by which `dedupeCatalogEntries` tells entries apart. -/
def CatalogEntry.dedupeKey (entry : CatalogEntry) : Text :=
  entry.path ++ '\x00' :: entry.packageId ++ '\x00' :: entry.command

/-- The loop of `dedupeCatalogEntries`. -/
def dedupeCatalogEntriesFrom (keys : OrdSet Text) : List CatalogEntry → List CatalogEntry
  | [] => []
  | entry :: rest =>
      if keys.has entry.dedupeKey = true then dedupeCatalogEntriesFrom keys rest
      else entry :: dedupeCatalogEntriesFrom (keys.set entry.dedupeKey ()) rest

def dedupeCatalogEntries (entries : List CatalogEntry) : List CatalogEntry :=
  dedupeCatalogEntriesFrom OrdMap.empty entries

/-- The entries of the two loops of `catalogEntriesForPackage`. -/
def PackageRecord.allEntries (packageRecord : PackageRecord) : List CatalogEntry :=
  packageRecord.commands.flatMap fun command =>
    (catalogPathsForCommand command).map fun path =>
      ⟨command, packageRecord.id, packageRecord.type, path⟩

/-- The entries of a package. -/
def catalogEntriesForPackage (packageRecord : PackageRecord) : List CatalogEntry :=
  dedupeCatalogEntries packageRecord.allEntries

def sameCatalogTarget (left right : CatalogEntry) : Bool :=
  left.packageId = right.packageId ∧ left.command = right.command

/-- The error of a path that is taken. -/
def catalogCollision (path : Text) : CommandError :=
  { CommandError.new "command_catalog_collision" "" "package_load" with
    message := "browser command catalog path collision: ".toList ++ path }

/-- The body of the loops of `createPackageCatalog`. -/
def addCatalogEntry (entriesByPath : OrdMap Text CatalogEntry) (entry : CatalogEntry) :
    Except CommandError (OrdMap Text CatalogEntry) :=
  match entriesByPath.get entry.path with
  | none => .ok (entriesByPath.set entry.path entry)
  | some existing =>
      if sameCatalogTarget existing entry = true then .ok (entriesByPath.set entry.path entry)
      else .error (catalogCollision entry.path)

/-- What `createPackageCatalog` returns is given by its entries by path. -/
structure PackageCatalog where
  entriesByPath : OrdMap Text CatalogEntry

/-- The catalog of packages. -/
def createPackageCatalog (packages : List PackageRecord) : Except CommandError PackageCatalog :=
  ((packages.flatMap catalogEntriesForPackage).foldlM addCatalogEntry OrdMap.empty).map .mk

namespace PackageCatalog

/-- The catalog without packages. -/
def empty : PackageCatalog := ⟨OrdMap.empty⟩

/-- The entries as a list. `localeCompare` depends on the locale of the worker. -/
def entries (localeCompare : Text → Text → Ordering) (catalog : PackageCatalog) :
    List CatalogEntry :=
  catalog.entriesByPath.values.mergeSort fun left right =>
    ((localeCompare left.path right.path).then <|
      (localeCompare left.packageId right.packageId).then <|
        localeCompare left.command right.command).isLE

/-- The error of a command that is not found. -/
def commandNotFound (command : Text) : CommandError :=
  { CommandError.new "command_not_found" "" "command_resolution" with
    message := "browser command not found in package catalog: ".toList ++ command
    exitCode := some 127 }

/-- The entry of a command. -/
def resolve (catalog : PackageCatalog) (command : Text) (pathValue : Option Text) :
    Except CommandError CatalogEntry := do
  let paths ← catalogLookupPaths command pathValue
  match paths.findSome? catalog.entriesByPath.get with
  | some entry => return entry
  | none => .error (commandNotFound command)

end PackageCatalog

/-! ### The entries of a package -/

variable {value path : Text} {packageRecord : PackageRecord}

theorem nul_not_mem_of_normalizeCommandPath
    (h : PackageCatalog.normalizeCommandPath value = some path) : '\x00' ∉ path := by
  unfold PackageCatalog.normalizeCommandPath at h
  dsimp only at h
  split at h
  · cases h
  next hvalue =>
    push Not at hvalue
    split at h
    · cases h
    next segments hsegments =>
      split at h
      · cases h
      next hne =>
        obtain rfl := Option.some.inj h
        have hmem : ∀ s ∈ segments, s ∈ (trim value).splitOn '/' := by
          intro s hs
          rw [(keptSegments_spec hsegments).1] at hs
          exact (mem_filter.1 hs).1
        rw [mem_cons, SepPath.mem_iff_exists_mem_splitOn (show '\x00' ≠ '/' by decide),
          SepPath.splitOn_join hne fun s hs => SepPath.not_mem_of_mem_splitOn (hmem s hs)]
        rintro (heq | ⟨s, hs, hnul⟩)
        · exact absurd heq (by decide)
        · -- a segment has no character that the text does not have
          refine hvalue.2 ((SepPath.mem_iff_exists_mem_splitOn (by decide)).2 ⟨s, hmem s hs, hnul⟩)

theorem commandPathDirs_default (fallbackToDefault : Bool) :
    commandPathDirs (some defaultCommandPath) fallbackToDefault =
      ["/bin".toList, "/usr/bin".toList] := by
  cases fallbackToDefault <;> decide

theorem nul_not_mem_of_mem_catalogPathsForCommand (h : path ∈ catalogPathsForCommand value) :
    '\x00' ∉ path := by
  unfold catalogPathsForCommand at h
  dsimp only at h
  split at h
  · cases h
  next htext =>
    push Not at htext
    split at h
    · exact nul_not_mem_of_normalizeCommandPath (Option.mem_toList.1 h)
    split at h
    · cases h
    rw [commandPathDirs_default, mem_map] at h
    obtain ⟨dir, hdir, rfl⟩ := h
    have hnul : ∀ dir ∈ ["/bin".toList, "/usr/bin".toList], '\x00' ∉ dir ++ ['/'] := by decide
    rw [append_cons, mem_append]
    exact not_or.2 ⟨hnul dir hdir, htext.2⟩

/-- The keys of the entries of one package tell them apart. -/
theorem dedupeKey_inj {e e' : CatalogEntry} (he : e ∈ packageRecord.allEntries)
    (he' : e' ∈ packageRecord.allEntries) (h : e.dedupeKey = e'.dedupeKey) : e = e' := by
  obtain ⟨command, -, hcommand⟩ := mem_flatMap.1 he
  obtain ⟨path, hpath, rfl⟩ := mem_map.1 hcommand
  obtain ⟨command', -, hcommand'⟩ := mem_flatMap.1 he'
  obtain ⟨path', hpath', rfl⟩ := mem_map.1 hcommand'
  have hsplit := congrArg (splitOnce '\x00') h
  simp only [CatalogEntry.dedupeKey, append_assoc, cons_append] at hsplit
  rw [splitOnce_append (nul_not_mem_of_mem_catalogPathsForCommand hpath),
    splitOnce_append (nul_not_mem_of_mem_catalogPathsForCommand hpath')] at hsplit
  obtain ⟨rfl, hrest⟩ := Prod.mk.inj (Option.some.inj hsplit)
  obtain rfl := (List.cons.inj (append_cancel_left hrest)).2
  rfl

variable {entry : CatalogEntry} {entriesByPath entriesByPath' : OrdMap Text CatalogEntry}

theorem mem_dedupeCatalogEntriesFrom {keys : OrdSet Text} {entries : List CatalogEntry}
    (hinj : ∀ e ∈ entries, ∀ e' ∈ entries, e.dedupeKey = e'.dedupeKey → e = e') :
    entry ∈ dedupeCatalogEntriesFrom keys entries ↔
      entry ∈ entries ∧ keys.has entry.dedupeKey = false := by
  induction entries generalizing keys with
  | nil => simp [dedupeCatalogEntriesFrom]
  | cons e rest ih =>
    have hrest := fun {keys} => @ih keys fun a ha b hb =>
      hinj a (mem_cons_of_mem _ ha) b (mem_cons_of_mem _ hb)
    unfold dedupeCatalogEntriesFrom
    split
    next hseen =>
      rw [hrest, mem_cons]
      grind
    next hnew =>
      rw [mem_cons, hrest, mem_cons, OrdMap.has_set]
      grind

/-- The entries of a package are those of its commands under their paths. -/
theorem mem_catalogEntriesForPackage :
    entry ∈ catalogEntriesForPackage packageRecord ↔
      ∃ command ∈ packageRecord.commands, ∃ path ∈ catalogPathsForCommand command,
        entry = ⟨command, packageRecord.id, packageRecord.type, path⟩ := by
  rw [catalogEntriesForPackage, dedupeCatalogEntries,
    mem_dedupeCatalogEntriesFrom fun e he e' he' => dedupeKey_inj he he']
  simp [PackageRecord.allEntries, eq_comm]

/-! ### The entries of a catalog -/

theorem sameCatalogTarget_iff {left right : CatalogEntry} :
    sameCatalogTarget left right = true ↔
      left.packageId = right.packageId ∧ left.command = right.command := decide_eq_true_iff

/-- What the loop of `createPackageCatalog` keeps when it comes through: every entry is found under
its path, up to one with the same target, and nothing else is. -/
structure Collected (entries : List CatalogEntry) (entriesByPath : OrdMap Text CatalogEntry) :
    Prop where
  origin : ∀ path entry, entriesByPath.get path = some entry → entry.path = path ∧ entry ∈ entries
  found : ∀ entry ∈ entries, ∃ existing, entriesByPath.get entry.path = some existing ∧
    sameCatalogTarget existing entry = true

theorem collected_addCatalogEntry {entries : List CatalogEntry}
    (h : Collected entries entriesByPath)
    (hadd : addCatalogEntry entriesByPath entry = .ok entriesByPath') :
    Collected (entries ++ [entry]) entriesByPath' := by
  -- an entry that is there already has the target of the new one
  have hset : entriesByPath' = entriesByPath.set entry.path entry ∧
      ∀ existing, entriesByPath.get entry.path = some existing →
        sameCatalogTarget existing entry = true := by
    unfold addCatalogEntry at hadd
    split at hadd
    next hnone =>
      refine ⟨(Except.ok.inj hadd).symm, fun existing hexisting => ?_⟩
      cases hnone.symm.trans hexisting
    next existing hexisting =>
      split at hadd
      next hsame =>
        refine ⟨(Except.ok.inj hadd).symm, fun other hother => ?_⟩
        rwa [← Option.some.inj (hexisting.symm.trans hother)]
      · cases hadd
  obtain ⟨rfl, hsame⟩ := hset
  constructor
  · intro path e he
    rw [OrdMap.get_set] at he
    split at he
    next hpath =>
      obtain rfl := Option.some.inj he
      exact ⟨hpath.symm, by simp⟩
    · obtain ⟨hpath, hmem⟩ := h.origin path e he
      exact ⟨hpath, mem_append_left _ hmem⟩
  · intro e he
    rw [OrdMap.get_set]
    by_cases hpath : e.path = entry.path
    · refine ⟨entry, if_pos hpath, ?_⟩
      rcases mem_append.1 he with hmem | hmem
      · obtain ⟨existing, hexisting, htarget⟩ := h.found e hmem
        have hnew := hsame existing (hpath ▸ hexisting)
        rw [sameCatalogTarget_iff] at htarget hnew ⊢
        exact ⟨hnew.1.symm.trans htarget.1, hnew.2.symm.trans htarget.2⟩
      · rw [mem_singleton.1 hmem, sameCatalogTarget_iff]
        exact ⟨rfl, rfl⟩
    · rw [if_neg hpath]
      rcases mem_append.1 he with hmem | hmem
      · exact h.found e hmem
      · exact absurd (congrArg CatalogEntry.path (mem_singleton.1 hmem)) hpath

theorem collected_foldlM {entries rest : List CatalogEntry} (h : Collected entries entriesByPath)
    (hfold : rest.foldlM addCatalogEntry entriesByPath = .ok entriesByPath') :
    Collected (entries ++ rest) entriesByPath' := by
  induction rest generalizing entries entriesByPath with
  | nil =>
    obtain rfl := Except.ok.inj hfold
    rwa [append_nil]
  | cons entry rest ih =>
    rw [foldlM_cons] at hfold
    obtain ⟨next, hnext, hrest⟩ := Except.bind_eq_ok_iff.1 hfold
    have := ih (collected_addCatalogEntry h hnext) hrest
    rwa [append_assoc, singleton_append] at this

/-- The catalog is made of the packages, no two of which have one id. -/
structure Catalogs (packages : List PackageRecord) (catalog : PackageCatalog) : Prop where
  created : createPackageCatalog packages = .ok catalog
  distinct : ∀ p ∈ packages, ∀ p' ∈ packages, p.id = p'.id → p = p'

namespace Catalogs

variable {packages : List PackageRecord} {catalog : PackageCatalog} (h : Catalogs packages catalog)
    {e e' : CatalogEntry}

include h

theorem collected :
    Collected (packages.flatMap catalogEntriesForPackage) catalog.entriesByPath := by
  have hcreated := h.created
  unfold createPackageCatalog at hcreated
  obtain ⟨entriesByPath, hfold, hcatalog⟩ := Except.bind_eq_ok_iff.1 hcreated
  obtain rfl := Except.ok.inj hcatalog
  have hstart : Collected [] OrdMap.empty :=
    ⟨fun path entry hentry => (by cases hentry), fun entry hentry => (by cases hentry)⟩
  exact collected_foldlM hstart hfold

/-- Entries with one path and one target are one entry. -/
theorem eq_of_target (he : e ∈ packages.flatMap catalogEntriesForPackage)
    (he' : e' ∈ packages.flatMap catalogEntriesForPackage) (hpath : e.path = e'.path)
    (htarget : sameCatalogTarget e e' = true) : e = e' := by
  obtain ⟨p, hp, hep⟩ := mem_flatMap.1 he
  obtain ⟨p', hp', hep'⟩ := mem_flatMap.1 he'
  obtain ⟨command, -, path, -, rfl⟩ := mem_catalogEntriesForPackage.1 hep
  obtain ⟨command', -, path', -, rfl⟩ := mem_catalogEntriesForPackage.1 hep'
  obtain ⟨hid, hcommand⟩ := sameCatalogTarget_iff.1 htarget
  obtain rfl := h.distinct p hp p' hp' hid
  have hpath : path = path' := hpath
  have hcommand : command = command' := hcommand
  rw [hpath, hcommand]

/-- Under a path the catalog has the entry of a package with that path. -/
theorem get_eq_some_iff :
    catalog.entriesByPath.get path = some entry ↔
      entry.path = path ∧ entry ∈ packages.flatMap catalogEntriesForPackage := by
  constructor
  · exact h.collected.origin path entry
  · rintro ⟨rfl, hmem⟩
    obtain ⟨existing, hexisting, htarget⟩ := h.collected.found entry hmem
    obtain ⟨hpath, hexistingMem⟩ := h.collected.origin _ existing hexisting
    rwa [h.eq_of_target hexistingMem hmem hpath htarget] at hexisting

/-- The entries of the catalog are those of its packages. -/
theorem mem_entries_iff (localeCompare : Text → Text → Ordering) :
    entry ∈ catalog.entries localeCompare ↔
      ∃ p ∈ packages, entry ∈ catalogEntriesForPackage p := by
  rw [PackageCatalog.entries, mem_mergeSort, OrdMap.mem_values, ← mem_flatMap]
  constructor
  · rintro ⟨path, hpath⟩
    exact (h.get_eq_some_iff.1 hpath).2
  · intro hmem
    exact ⟨entry.path, h.get_eq_some_iff.2 ⟨rfl, hmem⟩⟩

/-- No path leads to two entries. -/
theorem eq_of_path (localeCompare : Text → Text → Ordering) (he : e ∈ catalog.entries localeCompare)
    (he' : e' ∈ catalog.entries localeCompare) (hpath : e.path = e'.path) : e = e' := by
  rw [h.mem_entries_iff, ← mem_flatMap] at he he'
  have hget := h.get_eq_some_iff.2 ⟨hpath, he⟩
  rw [h.get_eq_some_iff.2 ⟨rfl, he'⟩] at hget
  exact (Option.some.inj hget).symm

end Catalogs

/-- The name of a command that is looked for in directories. -/
def IsBareName (command : Text) : Prop :=
  trim command ≠ [] ∧ '/' ∉ trim command ∧ '\x00' ∉ trim command

/-- A bare name of a package is found on the default path. -/
theorem Catalogs.resolve_bare {packages : List PackageRecord} {catalog : PackageCatalog}
    (h : Catalogs packages catalog) {p : PackageRecord} (hp : p ∈ packages) {command : Text}
    (hcommand : command ∈ p.commands) (hbare : IsBareName command) :
    ∃ entry, catalog.resolve command none = .ok entry ∧ entry.packageId = p.id ∧
      entry.command = command := by
  obtain ⟨hne, hslash, hnul⟩ := hbare
  have hrelative : ['/'].isPrefixOf (trim command) = false := by
    refine Bool.eq_false_iff.2 fun hstart => ?_
    obtain ⟨rest, hrest⟩ := isPrefixOf_iff_prefix.1 hstart
    exact hslash (hrest ▸ mem_cons_self)
  have hpaths : catalogPathsForCommand command =
      ["/bin".toList ++ '/' :: trim command, "/usr/bin".toList ++ '/' :: trim command] := by
    simp only [catalogPathsForCommand, hne, hnul, hrelative, hslash, or_self, if_false,
      Bool.false_eq_true, commandPathDirs_default, map_cons, map_nil]
  have hlookup : catalogLookupPaths command none =
      .ok ["/bin".toList ++ '/' :: trim command, "/usr/bin".toList ++ '/' :: trim command] := by
    have htext : nonEmptyString (some command) "command_resolution" = .ok (trim command) :=
      if_neg hne
    unfold catalogLookupPaths
    refine Except.bind_eq_ok_iff.2 ⟨_, htext, ?_⟩
    simp only [hnul, hrelative, hslash, if_false, Bool.false_eq_true, Option.getD_none,
      commandPathDirs_default, map_cons, map_nil]
    rfl
  have hentry : (⟨command, p.id, p.type, "/bin".toList ++ '/' :: trim command⟩ : CatalogEntry) ∈
      packages.flatMap catalogEntriesForPackage :=
    mem_flatMap.2 ⟨p, hp, mem_catalogEntriesForPackage.2
      ⟨command, hcommand, _, by rw [hpaths]; exact mem_cons_self, rfl⟩⟩
  refine ⟨⟨command, p.id, p.type, "/bin".toList ++ '/' :: trim command⟩, ?_, rfl, rfl⟩
  -- the first directory has it already
  refine Except.bind_eq_ok_iff.2 ⟨_, hlookup, ?_⟩
  rw [List.findSome?_cons, h.get_eq_some_iff.2 ⟨rfl, hentry⟩]
  rfl

end WasmHost

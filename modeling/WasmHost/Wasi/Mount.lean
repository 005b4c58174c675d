import Mathlib.Data.List.Sort
import WasmHost.Lib.OrdMap
import WasmHost.Path

/-!
# Mounts

A mount is a map of files and a set of explicit directories, both named by keys. A directory
may also be implicit: it exists because some key lies below it. The functions here are shared by
`/tmp`, `/workspace` and the package root.

`Mount.Edit` lists what the path calls do to a mount, `Mount.Allows` the checks they make
first, and `WellFormed.apply` is the shape theorem: an allowed edit that neither removes nor
moves the root keeps a well-formed mount well formed.
-/

namespace WasmHost

open OrdMap SepPath

/-- The file types of the Preview 1 imports. -/
inductive Filetype
  | characterDevice | directory | regularFile
  deriving DecidableEq, Repr

/-- The number of a file type. -/
def Filetype.code : Filetype → ℕ
  | characterDevice => 2
  | directory => 3
  | regularFile => 4

/-- The kinds of entries a mount can hold. -/
inductive PathKind
  | file | directory
  deriving DecidableEq, Repr

/-- What a path call reports about an entry. -/
structure PathStat where
  filetype : Filetype
  size : ℕ
  deriving DecidableEq, Repr

/-- An entry of a directory listing. -/
structure DirEntry where
  name : Text
  filetype : Filetype
  deriving DecidableEq, Repr

/-- The files and the explicit directories of a mount. -/
structure Mount (β : Type) where
  files : OrdMap Text β
  dirs : OrdSet Text

namespace Mount

variable {β : Type} (m : Mount β)

/-- Something is below a path. -/
def pathHasChildren (path : Text) : Bool :=
  m.dirs.keys.any (fun dir => decide (SepPath.Below '/' path dir)) ||
    m.files.keys.any (fun file => decide (SepPath.Below '/' path file))

/-- `scratchPathKind` and `workspacePathKind`: files are looked up first. -/
def pathKind (path : Text) : Option PathKind :=
  if m.files.has path = true then some .file
  else if m.dirs.has path = true ∨ m.pathHasChildren path = true then some .directory
  else none

/-- Directories are looked up first here. -/
def statPath (size : β → ℕ) (path : Text) : Except Errno PathStat :=
  if m.dirs.has path = true ∨ m.pathHasChildren path = true then .ok ⟨.directory, 0⟩
  else
    match m.files.get path with
    | none => .error .noent
    | some file => .ok ⟨.regularFile, size file⟩

/-- A top-level key needs no parent; any other needs an explicit one. -/
def scratchParentStatus (path : Text) : Except Errno Unit :=
  match SepPath.parent? '/' path with
  | none => .ok ()
  | some parent =>
      if m.files.has parent = true then .error .notdir
      else if m.dirs.has parent = true then .ok ()
      else .error .noent

/-! ### Listings -/

/-- The UTF-16 code units of a text, by which strings are compared. -/
def utf16Units (t : Text) : List ℕ :=
  t.flatMap fun c =>
    if c.toNat < 0x10000 then [c.toNat]
    else [0xD800 + (c.toNat - 0x10000) / 0x400, 0xDC00 + (c.toNat - 0x10000) % 0x400]

/-- `compareStrings(left, right) <= 0`. -/
def compareStringsLe (left right : Text) : Bool := !decide (utf16Units right < utf16Units left)

/-- The loop over the directories of `directoryEntries`. -/
def addDirEntry (pre : Text) (entries : OrdMap Text Filetype) (dir : Text) :
    OrdMap Text Filetype :=
  if dir = [] ∨ ¬pre <+: dir then entries
  else
    let rest := dir.drop pre.length
    if rest = [] then entries
    else
      match rest.splitOn '/' with
      | [] => entries
      | name :: _ => entries.set name .directory

/-- The loop over the files of `directoryEntries`. -/
def addFileEntry (pre : Text) (entries : OrdMap Text Filetype) (path : Text) :
    OrdMap Text Filetype :=
  if ¬pre <+: path then entries
  else
    match (path.drop pre.length).splitOn '/' with
    | [] => entries
    | name :: rest =>
        if name = [] then entries
        else if rest ≠ [] then entries.set name .directory
        else if entries.has name = true then entries
        else entries.set name .regularFile

/-- The entries of a directory before they are sorted. -/
def entryMap (path : Text) : OrdMap Text Filetype :=
  let pre := if path = [] then [] else path ++ ['/']
  m.files.keys.foldl (addFileEntry pre) (m.dirs.keys.foldl (addDirEntry pre) OrdMap.empty)

/-- The entries of a directory. -/
def directoryEntries (path : Text) : List DirEntry :=
  ((m.entryMap path).entries.map fun e => (⟨e.1, e.2⟩ : DirEntry)).mergeSort
    fun left right => compareStringsLe left.name right.name

/-! ### Lookups -/

variable (path : Text)

theorem pathHasChildren_iff :
    m.pathHasChildren path = true ↔
      ∃ k, SepPath.Below '/' path k ∧ (m.dirs.has k = true ∨ m.files.has k = true) := by
  simp only [pathHasChildren, Bool.or_eq_true, List.any_eq_true, decide_eq_true_eq, mem_keys]
  constructor
  · rintro (⟨k, hk, hbelow⟩ | ⟨k, hk, hbelow⟩)
    · exact ⟨k, hbelow, .inl hk⟩
    · exact ⟨k, hbelow, .inr hk⟩
  · rintro ⟨k, hbelow, hk | hk⟩
    · exact .inl ⟨k, hk, hbelow⟩
    · exact .inr ⟨k, hk, hbelow⟩

theorem pathHasChildren_eq_false_iff :
    m.pathHasChildren path = false ↔
      ∀ k, SepPath.Below '/' path k → m.dirs.has k = false ∧ m.files.has k = false := by
  rw [← Bool.not_eq_true, pathHasChildren_iff]
  simp only [not_exists, not_and, not_or, Bool.not_eq_true]

theorem pathKind_eq_file_iff : m.pathKind path = some .file ↔ m.files.has path = true := by
  unfold pathKind
  split
  next h => simp [h]
  next h => split <;> simp [h]

theorem pathKind_eq_directory_iff :
    m.pathKind path = some .directory ↔
      m.files.has path = false ∧ (m.dirs.has path = true ∨ m.pathHasChildren path = true) := by
  unfold pathKind
  split
  next h => simp [h]
  next h =>
    split
    next hd => simp [h, hd]
    next hd => simp [h, hd]

theorem pathKind_eq_none_iff :
    m.pathKind path = none ↔
      m.files.has path = false ∧ m.dirs.has path = false ∧ m.pathHasChildren path = false := by
  unfold pathKind
  split
  next h => simp [h]
  next h =>
    split
    next hd => rcases hd with hd | hd <;> simp [hd]
    next hd => simp_all

theorem scratchParentStatus_eq_ok_iff :
    m.scratchParentStatus path = .ok () ↔
      ∀ parent, parent? '/' path = some parent →
        m.files.has parent = false ∧ m.dirs.has parent = true := by
  unfold scratchParentStatus
  split
  next h => simp [h]
  next parent h =>
    simp only [h, Option.some.injEq, forall_eq']
    split
    next hf => simp [hf]
    next hf => split <;> simp_all

end Mount

/-! ### Edits -/

/-- What a path call does to a mount. -/
inductive Mount.Edit (β : Type)
  | createFile (path : Text) (file : β)
  | createDir (path : Text)
  | removeFile (path : Text)
  | removeDir (path : Text)
  | renameFile (source target : Text) (file : β)
  | renameDir (source target : Text)

namespace Mount

variable {β : Type} (m : Mount β)

/-- The mount after an edit. -/
def apply : Edit β → Mount β
  | .createFile path file => { m with files := m.files.set path file }
  | .createDir path => { m with dirs := m.dirs.set path () }
  | .removeFile path => { m with files := m.files.delete path }
  | .removeDir path => { m with dirs := m.dirs.delete path }
  | .renameFile source target file =>
      { m with files := (m.files.delete source).set target file }
  | .renameDir source target =>
      { files := m.files.rekey (SepPath.move '/' source target) fun _ file => file
        dirs := (m.dirs.delete target).rekey (SepPath.move '/' source target) fun _ _ => () }

/-- The checks of `path_open` before it creates or finds the file. -/
def checkOpenFile (path : Text) : Except Errno Unit :=
  if m.dirs.has path = true ∨ m.pathHasChildren path = true then .error .isdir
  else m.scratchParentStatus path

/-- The checks of `path_create_directory`. -/
def checkCreateDirectory (path : Text) : Except Errno Unit :=
  if m.dirs.has path = true ∨ m.files.has path = true then .error .exist
  else m.scratchParentStatus path

/-- The checks of `path_unlink_file`. -/
def checkUnlinkFile (path : Text) : Except Errno Unit :=
  if m.dirs.has path = true ∨ m.pathHasChildren path = true then .error .isdir
  else if m.files.has path = true then .ok ()
  else .error .noent

/-- The checks of `path_remove_directory` below the directory `base`. -/
def checkRemoveDirectory (base path : Text) : Except Errno Unit :=
  if path = base then .error .notcapable
  else if m.files.has path = true then .error .notdir
  else
    match m.scratchParentStatus path with
    | .error errno => .error errno
    | .ok () =>
        if m.dirs.has path = false then
          .error (if m.pathHasChildren path = true then .notempty else .noent)
        else if m.pathHasChildren path = true then .error .notempty
        else .ok ()

/-- The checks of `path_rename` for two different keys; the kind of the source if they pass. -/
def checkRename (source target : Text) : Except Errno PathKind :=
  match m.pathKind source with
  | none => .error .noent
  | some sourceKind =>
      if sourceKind = .directory ∧ SepPath.Below '/' source target then .error .inval
      else
        match m.pathKind target with
        | none =>
            match m.scratchParentStatus target with
            | .error errno => .error errno
            | .ok () => .ok sourceKind
        | some targetKind =>
            if sourceKind = .file then
              if targetKind = .directory then .error .isdir else .ok sourceKind
            else if targetKind = .file then .error .notdir
            else if m.pathHasChildren target = true then .error .notempty
            else .ok sourceKind

/-- The new place of a renamed entry is free, or holds something the rename may replace. -/
def FreeFor (kind : PathKind) (target : Text) : Prop :=
  (m.pathKind target = none ∧ m.scratchParentStatus target = .ok ()) ∨
    (m.pathKind target = some kind ∧ (kind = .directory → m.pathHasChildren target = false))

/-- The checks under which the host makes an edit. -/
def Allows : Edit β → Prop
  | .createFile path _ => m.files.has path = false ∧ m.checkOpenFile path = .ok ()
  | .createDir path => m.checkCreateDirectory path = .ok ()
  | .removeFile path => m.checkUnlinkFile path = .ok ()
  | .removeDir path => ∃ base, m.checkRemoveDirectory base path = .ok ()
  | .renameFile source target _ =>
      source ≠ target ∧ m.checkRename source target = .ok .file
  | .renameDir source target =>
      source ≠ target ∧ m.checkRename source target = .ok .directory

variable (path : Text)

theorem checkOpenFile_eq_ok_iff :
    m.checkOpenFile path = .ok () ↔
      m.dirs.has path = false ∧ m.pathHasChildren path = false ∧
        m.scratchParentStatus path = .ok () := by
  unfold checkOpenFile
  split
  next h => rcases h with h | h <;> simp [h]
  next h => simp_all

theorem checkCreateDirectory_eq_ok_iff :
    m.checkCreateDirectory path = .ok () ↔
      m.dirs.has path = false ∧ m.files.has path = false ∧
        m.scratchParentStatus path = .ok () := by
  unfold checkCreateDirectory
  split
  next h => rcases h with h | h <;> simp [h]
  next h => simp_all

theorem checkUnlinkFile_eq_ok_iff :
    m.checkUnlinkFile path = .ok () ↔
      m.dirs.has path = false ∧ m.pathHasChildren path = false ∧ m.files.has path = true := by
  unfold checkUnlinkFile
  split
  next h => rcases h with h | h <;> simp [h]
  next h => split <;> simp_all

theorem checkRemoveDirectory_eq_ok_iff (base path : Text) :
    m.checkRemoveDirectory base path = .ok () ↔
      path ≠ base ∧ m.files.has path = false ∧ m.scratchParentStatus path = .ok () ∧
        m.dirs.has path = true ∧ m.pathHasChildren path = false := by
  unfold checkRemoveDirectory
  split
  next h => simp [h]
  next h =>
    split
    next hf => simp [hf]
    next hf =>
      split
      next errno hp => simp [hp]
      next hp =>
        split
        next hd => simp [hd]
        next hd => split <;> simp_all

theorem checkRename_eq_ok_iff (source target : Text) (kind : PathKind) :
    m.checkRename source target = .ok kind ↔
      m.pathKind source = some kind ∧
        ¬(kind = .directory ∧ SepPath.Below '/' source target) ∧ m.FreeFor kind target := by
  unfold checkRename FreeFor
  split
  next h => simp [h]
  next sourceKind h =>
    rw [h]
    by_cases hkind : sourceKind = kind
    · subst hkind
      split
      next hb => simp [hb]
      next hb =>
        simp only [hb, not_false_eq_true, true_and]
        split
        next ht =>
          split
          next errno hp => simp [hp, ht]
          next hp => simp [hp, ht]
        next targetKind ht =>
          cases m.pathHasChildren target <;> cases sourceKind <;> cases targetKind <;>
            simp [ht]
    · simp only [Option.some.injEq, hkind, false_and, iff_false]
      split
      · simp
      split
      · split <;> simp [hkind]
      · split <;> (try split) <;> (try split) <;> simp [hkind]

end Mount

/-! ### Well-formed mounts -/

/-- The root is a directory, no key is both a file and a directory, no key lies below a file,
and every key is canonical. -/
structure Mount.WellFormed {β : Type} (m : Mount β) : Prop where
  root : m.dirs.has [] = true
  disjoint : ∀ k, m.files.has k = true → m.dirs.has k = false
  leaf : ∀ f k, m.files.has f = true → m.files.has k = true ∨ m.dirs.has k = true →
    ¬SepPath.Below '/' f k
  canonical_file : ∀ k, m.files.has k = true → CanonicalKey k
  canonical_dir : ∀ k, m.dirs.has k = true → CanonicalPath k

namespace Mount

variable {β : Type} {m : Mount β} {source : Text}

namespace WellFormed

theorem no_children_of_file (hm : m.WellFormed) {k : Text} (h : m.files.has k = true) :
    m.pathHasChildren k = false := by
  rw [pathHasChildren_eq_false_iff]
  intro j hj
  constructor
  · by_contra hd
    exact hm.leaf k j h (.inr (by simpa using hd)) hj
  · by_contra hf
    exact hm.leaf k j h (.inl (by simpa using hf)) hj

/-- No file lies above a key whose parent passes the check. -/
theorem not_below_of_parentStatus (hm : m.WellFormed) {f path : Text}
    (h : m.scratchParentStatus path = .ok ()) (hf : m.files.has f = true) :
    ¬SepPath.Below '/' f path := by
  intro hbelow
  obtain ⟨parent, hparent, hfp⟩ := exists_parent?_of_below hbelow
  obtain ⟨hnf, hd⟩ := (m.scratchParentStatus_eq_ok_iff path).1 h parent hparent
  rcases hfp with rfl | hfp
  · simp [hf] at hnf
  · exact hm.leaf f parent hf (.inr hd) hfp

end WellFormed

variable {target k : Text}

/-- What a rename may replace is not at or above any other key. -/
theorem FreeFor.not_atOrBelow_target (h : m.FreeFor .directory target)
    (hk : m.files.has k = true ∨ (m.dirs.has k = true ∧ k ≠ target)) :
    ¬SepPath.AtOrBelow '/' target k := by
  intro hat
  have hfree : m.files.has target = false ∧ m.pathHasChildren target = false := by
    rcases h with ⟨hkind, -⟩ | ⟨hkind, hno⟩
    · obtain ⟨hf, -, hc⟩ := (m.pathKind_eq_none_iff target).1 hkind
      exact ⟨hf, hc⟩
    · exact ⟨((m.pathKind_eq_directory_iff target).1 hkind).1, hno rfl⟩
  rcases hat with rfl | hbelow
  · rcases hk with hk | ⟨-, hne⟩
    · simp [hfree.1] at hk
    · exact hne rfl
  · obtain ⟨hd, hf⟩ := (m.pathHasChildren_eq_false_iff target).1 hfree.2 k hbelow
    rcases hk with hk | ⟨hk, -⟩
    · simp [hf] at hk
    · simp [hd] at hk

/-- The same in the form in which a move asks for it. -/
theorem FreeFor.not_atOrBelow (h : m.FreeFor .directory target)
    (hk : m.files.has k = true ∨ (m.dirs.has k = true ∧ k ≠ target)) :
    SepPath.AtOrBelow '/' source k ∨ ¬SepPath.AtOrBelow '/' target k :=
  .inr (h.not_atOrBelow_target hk)

namespace WellFormed

variable {target path source : Text}

section

variable (hm : m.WellFormed)
include hm

/-- No file lies above the target of an accepted rename. -/
theorem not_below_of_freeFor {kind : PathKind} {f : Text}
    (h : m.FreeFor kind target) (hf : m.files.has f = true) : ¬SepPath.Below '/' f target := by
  rcases h with ⟨-, hparent⟩ | ⟨hkind, -⟩
  · exact hm.not_below_of_parentStatus hparent hf
  · cases kind with
    | file => exact hm.leaf f target hf (.inl ((m.pathKind_eq_file_iff target).1 hkind))
    | directory =>
      rcases ((m.pathKind_eq_directory_iff target).1 hkind).2 with hd | hc
      · exact hm.leaf f target hf (.inr hd)
      · obtain ⟨k, hbelow, hk⟩ := (m.pathHasChildren_iff target).1 hc
        exact fun hft => hm.leaf f k hf hk.symm (hft.trans hbelow)

/-- A file at a free path that no file is above of. -/
theorem putFile {files : OrdMap Text β} (hpath : CanonicalPath path)
    (hdir : m.dirs.has path = false) (hchildren : m.pathHasChildren path = false)
    (habove : ∀ f, m.files.has f = true → ¬Below '/' f path)
    (hfile : ∀ k, files.has k = true → k = path ∨ m.files.has k = true) :
    { m with files }.WellFormed := by
  have hempty := (m.pathHasChildren_eq_false_iff path).1 hchildren
  have hkey : CanonicalKey path := by
    refine hpath.resolve_left ?_
    rintro rfl
    simp [hm.root] at hdir
  refine ⟨hm.root, fun k hk => ?_, fun f k hf hk => ?_, fun k hk => ?_, hm.canonical_dir⟩
  · rcases hfile k hk with rfl | hk
    · exact hdir
    · exact hm.disjoint k hk
  · rcases hfile f hf with rfl | hf
    · intro hbelow
      obtain ⟨hd, hnf⟩ := hempty k hbelow
      rcases hk with hk | hk
      · rcases hfile k hk with rfl | hk
        · exact not_below_self _ hbelow
        · simp [hnf] at hk
      · simp [hd] at hk
    · rcases hk with hk | hk
      · rcases hfile k hk with hkp | hk
        · exact hkp ▸ habove f hf
        · exact hm.leaf f k hf (.inl hk)
      · exact hm.leaf f k hf (.inr hk)
  · rcases hfile k hk with rfl | hk
    · exact hkey
    · exact hm.canonical_file k hk

theorem createFile {file : β} (hpath : CanonicalPath path)
    (h : m.Allows (.createFile path file)) : (m.apply (.createFile path file)).WellFormed := by
  obtain ⟨-, hcheck⟩ := h
  obtain ⟨hdir, hchildren, hparent⟩ := (m.checkOpenFile_eq_ok_iff path).1 hcheck
  exact hm.putFile hpath hdir hchildren (fun f hf => hm.not_below_of_parentStatus hparent hf)
    fun k hk => by simpa using hk

theorem createDir (hpath : CanonicalPath path) (h : m.Allows (.createDir path)) :
    (m.apply (.createDir path)).WellFormed := by
  obtain ⟨-, hfile, hparent⟩ := (m.checkCreateDirectory_eq_ok_iff path).1 h
  have hdir : ∀ k, (m.dirs.set path ()).has k = true ↔ k = path ∨ m.dirs.has k = true := by
    simp
  refine ⟨(hdir []).2 (.inr hm.root), fun k hk => ?_, fun f k hf hk => ?_, hm.canonical_file,
    fun k hk => ?_⟩
  · cases hd : (m.dirs.set path ()).has k with
    | false => exact hd
    | true =>
      rcases (hdir k).1 hd with rfl | hd
      · exact absurd hk (by simp [Mount.apply, hfile])
      · exact absurd hd (by simp [hm.disjoint k hk])
  · rcases hk with hk | hk
    · exact hm.leaf f k hf (.inl hk)
    · rcases (hdir k).1 hk with rfl | hk
      · exact hm.not_below_of_parentStatus hparent hf
      · exact hm.leaf f k hf (.inr hk)
  · rcases (hdir k).1 hk with rfl | hk
    · exact hpath
    · exact hm.canonical_dir k hk

theorem removeFile (path : Text) :
    (m.apply (.removeFile path)).WellFormed := by
  have hsub : ∀ k, (m.files.delete path).has k = true → m.files.has k = true := by
    simp
  refine ⟨hm.root, fun k hk => hm.disjoint k (hsub k hk), fun f k hf hk => ?_,
    fun k hk => hm.canonical_file k (hsub k hk), hm.canonical_dir⟩
  exact hm.leaf f k (hsub f hf) (hk.imp_left (hsub k))

theorem removeDir (hpath : path ≠ []) :
    (m.apply (.removeDir path)).WellFormed := by
  have hsub : ∀ k, (m.dirs.delete path).has k = true → m.dirs.has k = true := by
    simp
  refine ⟨?_, fun k hk => ?_, fun f k hf hk => hm.leaf f k hf (hk.imp_right (hsub k)),
    hm.canonical_file, fun k hk => hm.canonical_dir k (hsub k hk)⟩
  · simp [Mount.apply, Ne.symm hpath, hm.root]
  · simp [Mount.apply, hm.disjoint k hk]

theorem renameFile {file : β} (htarget : CanonicalPath target)
    (h : m.Allows (.renameFile source target file)) :
    (m.apply (.renameFile source target file)).WellFormed := by
  obtain ⟨-, hcheck⟩ := h
  obtain ⟨-, -, hfree⟩ := (m.checkRename_eq_ok_iff source target .file).1 hcheck
  have hnew : m.dirs.has target = false ∧ m.pathHasChildren target = false := by
    rcases hfree with ⟨hkind, -⟩ | ⟨hkind, -⟩
    · exact ((m.pathKind_eq_none_iff target).1 hkind).2
    · have hf := (m.pathKind_eq_file_iff target).1 hkind
      exact ⟨hm.disjoint target hf, hm.no_children_of_file hf⟩
  refine hm.putFile htarget hnew.1 hnew.2 (fun f hf => hm.not_below_of_freeFor hfree hf)
    fun k hk => ?_
  simp only [has_set, has_delete, Bool.or_eq_true, decide_eq_true_eq, Bool.and_eq_true] at hk
  exact hk.imp_right And.right

end

/-- Where a key of the moved mount comes from. -/
theorem renameDir_source (target : Text)
    (hk : (m.apply (.renameDir source target)).files.has k = true ∨
      (m.apply (.renameDir source target)).dirs.has k = true) :
    ∃ j, move '/' source target j = k ∧
      (m.files.has j = true ∨ (m.dirs.has j = true ∧ j ≠ target)) := by
  rcases hk with hk | hk
  · obtain ⟨j, hj, rfl⟩ := (has_rekey _ _ _ _).1 hk
    exact ⟨j, rfl, .inl hj⟩
  · obtain ⟨j, hj, rfl⟩ := (has_rekey _ _ _ _).1 hk
    simp only [has_delete, Bool.and_eq_true, Bool.not_eq_true', decide_eq_false_iff_not] at hj
    exact ⟨j, rfl, .inr ⟨hj.2, hj.1⟩⟩

theorem renameDir (hm : m.WellFormed) (hsource : source ≠ []) (htarget : CanonicalKey target)
    (h : m.Allows (.renameDir source target)) :
    (m.apply (.renameDir source target)).WellFormed := by
  obtain ⟨-, hcheck⟩ := h
  obtain ⟨-, -, hfree⟩ := (m.checkRename_eq_ok_iff source target .directory).1 hcheck
  have hfileOf : ∀ k, (m.apply (.renameDir source target)).files.has k = true →
      ∃ j, move '/' source target j = k ∧ m.files.has j = true := by
    intro k hk
    obtain ⟨j, hj, rfl⟩ := (has_rekey _ _ _ _).1 hk
    exact ⟨j, rfl, hj⟩
  have hdirOf : ∀ k, (m.apply (.renameDir source target)).dirs.has k = true →
      ∃ j, move '/' source target j = k ∧ m.dirs.has j = true ∧ j ≠ target := by
    intro k hk
    obtain ⟨j, hj, rfl⟩ := (has_rekey _ _ _ _).1 hk
    simp only [has_delete, Bool.and_eq_true, Bool.not_eq_true', decide_eq_false_iff_not] at hj
    exact ⟨j, rfl, hj.2, hj.1⟩
  have hcanonical : ∀ j, CanonicalKey j → CanonicalKey (move '/' source target j) := by
    intro j hj
    by_cases hat : SepPath.AtOrBelow '/' source j
    · rw [move_of_atOrBelow target hat]
      exact hj.rebase htarget hat
    · rwa [move_of_not_atOrBelow target hat]
  have hroot : move '/' source target [] = [] := by
    refine move_of_not_atOrBelow target ?_
    rintro (h | h)
    · exact hsource h.symm
    · exact absurd h.length_lt (by simp)
  refine ⟨?_, fun k hk => ?_, fun f k hf hk => ?_, fun k hk => ?_, fun k hk => ?_⟩
  · refine (has_rekey _ _ _ _).2 ⟨[], ?_, hroot⟩
    simp [hm.root, Ne.symm htarget.ne_nil]
  · by_contra hd
    obtain ⟨i, hi, hif⟩ := hfileOf k hk
    obtain ⟨j, hj, hjd, hjt⟩ := hdirOf k (by simpa using hd)
    have heq := move_inj (hfree.not_atOrBelow (.inl hif))
      (hfree.not_atOrBelow (.inr ⟨hjd, hjt⟩)) (hi.trans hj.symm)
    subst heq
    simp [hm.disjoint i hif] at hjd
  · obtain ⟨i, rfl, hif⟩ := hfileOf f hf
    obtain ⟨j, rfl, hj⟩ := renameDir_source target hk
    have hleaf : ¬SepPath.Below '/' i j :=
      hm.leaf i j hif (hj.imp_right And.left)
    have houtside : ¬SepPath.AtOrBelow '/' source j → ¬SepPath.AtOrBelow '/' target j :=
      fun hno => (hfree.not_atOrBelow hj).resolve_left hno
    by_cases hi : SepPath.AtOrBelow '/' source i
    · rw [move_of_atOrBelow target hi]
      by_cases hjs : SepPath.AtOrBelow '/' source j
      · rwa [move_of_atOrBelow target hjs, rebase_below_rebase_iff hi hjs]
      · rw [move_of_not_atOrBelow target hjs]
        exact fun hbelow =>
          houtside hjs ((rebase_atOrBelow target hi).trans_below hbelow).atOrBelow
    · rw [move_of_not_atOrBelow target hi]
      by_cases hjs : SepPath.AtOrBelow '/' source j
      · rw [move_of_atOrBelow target hjs]
        intro hbelow
        have hnot : ¬SepPath.AtOrBelow '/' target i :=
          (hfree.not_atOrBelow (.inl hif)).resolve_left hi
        rcases hbelow.atOrBelow.comparable (rebase_atOrBelow target hjs) with h | h
        · rcases h with rfl | h
          · exact hnot (atOrBelow_self _)
          · exact hm.not_below_of_freeFor hfree hif h
        · exact hnot h
      · rwa [move_of_not_atOrBelow target hjs]
  · obtain ⟨j, rfl, hj⟩ := hfileOf k hk
    exact hcanonical j (hm.canonical_file j hj)
  · obtain ⟨j, rfl, hj, -⟩ := hdirOf k hk
    rcases hm.canonical_dir j hj with rfl | hj
    · rw [hroot]
      exact .inl rfl
    · exact (hcanonical j hj).canonicalPath

end WellFormed

/-- Every key the edit names is canonical. -/
def Edit.Canonical : Edit β → Prop
  | .createFile path _ | .createDir path | .removeFile path | .removeDir path =>
      CanonicalPath path
  | .renameFile source target _ | .renameDir source target =>
      CanonicalPath source ∧ CanonicalPath target

/-- The edit neither removes the root nor moves a directory from or to it. -/
def Edit.AvoidsRoot : Edit β → Prop
  | .removeDir path => path ≠ []
  | .renameDir source target => source ≠ [] ∧ target ≠ []
  | _ => True

/-- An allowed edit away from the root keeps the mount well formed. -/
theorem WellFormed.apply (hm : m.WellFormed) {e : Edit β} (he : m.Allows e)
    (hcanonical : e.Canonical) (hroot : e.AvoidsRoot) : (m.apply e).WellFormed := by
  cases e with
  | createFile => exact hm.createFile hcanonical he
  | createDir => exact hm.createDir hcanonical he
  | removeFile path => exact hm.removeFile path
  | removeDir => exact hm.removeDir hroot
  | renameFile => exact hm.renameFile hcanonical.2 he
  | renameDir => exact hm.renameDir hroot.1 (hcanonical.2.resolve_left hroot.2) he

/-- After an accepted rename of a directory nothing is left at or below its old place. -/
theorem not_atOrBelow_of_renameDir (h : m.Allows (.renameDir source target))
    (hk : (m.apply (.renameDir source target)).files.has k = true ∨
      (m.apply (.renameDir source target)).dirs.has k = true) :
    ¬SepPath.AtOrBelow '/' source k := by
  obtain ⟨hne, hcheck⟩ := h
  obtain ⟨hkind, hinside, hfree⟩ := (m.checkRename_eq_ok_iff source target .directory).1 hcheck
  obtain ⟨j, rfl, hj⟩ := WellFormed.renameDir_source target hk
  intro hat
  by_cases hjs : SepPath.AtOrBelow '/' source j
  · -- a moved key is at or below the new place, which does not overlap the old one
    rw [move_of_atOrBelow target hjs] at hat
    rcases (rebase_atOrBelow target hjs).comparable hat with hts | hst
    · rcases hts with rfl | hbelow
      · exact hne rfl
      · exact hfree.not_atOrBelow_target hj (hbelow.trans_atOrBelow hjs).atOrBelow
    · rcases hst with rfl | hbelow
      · exact hne rfl
      · exact hinside ⟨rfl, hbelow⟩
  · rw [move_of_not_atOrBelow target hjs] at hat
    exact hjs hat

/-- An allowed edit changes the mount. -/
theorem apply_ne_self {e : Edit β} (h : m.Allows e) : m.apply e ≠ m := by
  intro heq
  have hfiles : ∀ k, (m.apply e).files.has k = m.files.has k := fun k => by rw [heq]
  have hdirs : ∀ k, (m.apply e).dirs.has k = m.dirs.has k := fun k => by rw [heq]
  cases e with
  | createFile path file =>
    have hnew := hfiles path
    simp [apply, h.1] at hnew
  | createDir path =>
    have hnew := hdirs path
    simp [apply, ((m.checkCreateDirectory_eq_ok_iff path).1 h).1] at hnew
  | removeFile path =>
    have hgone := hfiles path
    simp [apply, ((m.checkUnlinkFile_eq_ok_iff path).1 h).2.2] at hgone
  | removeDir path =>
    obtain ⟨base, hcheck⟩ := h
    have hgone := hdirs path
    simp [apply, ((m.checkRemoveDirectory_eq_ok_iff base path).1 hcheck).2.2.2.1] at hgone
  | renameFile source target file =>
    obtain ⟨hne, hcheck⟩ := h
    have hsource : m.files.has source = true :=
      (m.pathKind_eq_file_iff source).1 ((m.checkRename_eq_ok_iff source target .file).1 hcheck).1
    have hgone := hfiles source
    simp [apply, hsource, hne] at hgone
  | renameDir source target =>
    -- some key at or below the source was there before the move
    obtain ⟨-, hexists⟩ := (m.pathKind_eq_directory_iff source).1
      ((m.checkRename_eq_ok_iff source target .directory).1 h.2).1
    rcases hexists with hd | hc
    · exact not_atOrBelow_of_renameDir h (.inr ((hdirs source).trans hd))
        (atOrBelow_self source)
    · obtain ⟨k, hbelow, hk⟩ := (m.pathHasChildren_iff source).1 hc
      refine not_atOrBelow_of_renameDir h ?_ hbelow.atOrBelow
      rw [hfiles, hdirs]
      exact hk.symm

end Mount

end WasmHost

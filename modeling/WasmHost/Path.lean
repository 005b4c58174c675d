import Mathlib.Algebra.GroupWithZero.Nat
import Mathlib.Algebra.Order.BigOperators.Group.List
import Mathlib.Algebra.Order.Group.Nat
import Mathlib.Data.List.DropRight
import WasmHost.Lib.SepPath

/-!
# Path texts

The two path normalizers of the browser host and the mounts they resolve into. A path text is
the list of characters of a decoded string; a *key* is the normalized text under which a mount
stores an entry, with `""` for the root of the mount.

* `normalizeRelativeWasiPath`, `resolveMountedPath`, `resolvePackageRootPath`,
  `rootVirtualMountPath`, `resolveWasiVirtualPath`: the guest side (`wasi-module.js`).
* `normalizeWorkspacePath`: the store side (`workspace.js`).

The main facts are that the guest side only produces canonical keys
(`canonicalPath_of_resolveMountedPath`) and leaves canonical keys alone
(`resolveMountedPath_of_canonical`), and when the store side leaves a canonical key alone
(`storeStable_iff`).
-/

namespace WasmHost

open SepPath List

/-- A decoded string. -/
abbrev Text := List Char

/-- Bytes, as `Uint8Array` and `Vec<u8>` hold them. -/
abbrev Bytes := List UInt8

/-- The errno values of the Preview 1 imports. -/
inductive Errno
  | success | access | again | badf | child | exist | fault | inval | isdir | noent | notdir
  | notempty | notsup | overflow | pipe | range | notcapable
  deriving DecidableEq, Repr

/-- The errno numbers the guest sees. -/
def Errno.code : Errno → ℕ
  | success => 0
  | access => 2
  | again => 6
  | badf => 8
  | child => 12
  | exist => 20
  | fault => 21
  | inval => 28
  | isdir => 31
  | noent => 44
  | notdir => 54
  | notempty => 55
  | notsup => 58
  | overflow => 61
  | pipe => 64
  | range => 68
  | notcapable => 76

def workspacePreopenPath : Text := "/workspace".toList

def tmpPreopenPath : Text := "/tmp".toList

def packageRootPreopenPath : Text := "/".toList

/-! ### Canonical keys -/

/-- A path segment that every normalizer keeps. -/
def CanonicalSegment (s : Text) : Prop :=
  s ≠ [] ∧ s ≠ ['.'] ∧ s ≠ ['.', '.'] ∧ '\x00' ∉ s

/-- Canonical segments can be recognised. -/
instance (s : Text) : Decidable (CanonicalSegment s) := inferInstanceAs (Decidable (_ ∧ _))

/-- A key of an entry below the root: no empty, `.`, `..` or NUL segment. -/
def CanonicalKey (k : Text) : Prop := SepPath.AllSegments '/' CanonicalSegment k

/-- So can canonical keys. -/
instance (k : Text) : Decidable (CanonicalKey k) :=
  inferInstanceAs (Decidable (∀ s ∈ k.splitOn '/', CanonicalSegment s))

/-- The root key or a canonical key. -/
def CanonicalPath (k : Text) : Prop := k = [] ∨ CanonicalKey k

/-- So can canonical paths. -/
instance (k : Text) : Decidable (CanonicalPath k) := inferInstanceAs (Decidable (_ ∨ _))

/-- The key of an entry named relative to a directory. -/
def joinKey (base k : Text) : Text := if base = [] then k else base ++ '/' :: k

variable {k base path mount cwd : Text} {segments kept : List Text} {lookup : Bool}

theorem CanonicalKey.ne_nil (h : CanonicalKey k) : k ≠ [] := by
  rintro rfl
  exact (h [] (by simp [splitOn_nil])).1 rfl

theorem not_canonicalKey_nil : ¬CanonicalKey [] := fun h => h.ne_nil rfl

theorem CanonicalKey.canonicalPath (h : CanonicalKey k) : CanonicalPath k := .inr h

theorem canonicalKey_append {a b : Text} :
    CanonicalKey (a ++ '/' :: b) ↔ CanonicalKey a ∧ CanonicalKey b :=
  allSegments_append

/-- Canonical keys are relative. -/
theorem CanonicalKey.not_slash_cons (h : CanonicalKey ('/' :: k)) : False :=
  not_canonicalKey_nil (canonicalKey_append (a := []).1 h).1

theorem CanonicalKey.joinKey (hbase : CanonicalPath base) (hk : CanonicalKey k) :
    CanonicalKey (joinKey base k) := by
  unfold WasmHost.joinKey
  split
  · exact hk
  next hne => exact canonicalKey_append.2 ⟨hbase.resolve_left hne, hk⟩

theorem CanonicalKey.rebase {src tgt : Text} (hk : CanonicalKey k) (htgt : CanonicalKey tgt)
    (h : SepPath.AtOrBelow '/' src k) : CanonicalKey (SepPath.rebase src tgt k) :=
  SepPath.AllSegments.rebase hk htgt h

/-! ### The guest side -/

/-- The loop over the segments of a path: empty and `.` segments are dropped, a `..` segment
ends it. -/
def keptSegments : List Text → Option (List Text)
  | [] => some []
  | segment :: rest =>
      if segment = [] ∨ segment = ['.'] then keptSegments rest
      else if segment = ['.', '.'] then none
      else (keptSegments rest).map (segment :: ·)

/-- The key of a relative path. -/
def normalizeRelativeWasiPath (path : Text) : Option Text :=
  if path = [] ∨ '\x00' ∈ path then none
  else
    match keptSegments (path.splitOn '/') with
    | none => none
    | some segments =>
        if segments = [] then none else some (List.intercalate ['/'] segments)

/-- The key of a path that a guest gives. -/
def normalizeWasiPath (path : Text) : Option Text :=
  if path = ['.'] then some []
  else if ['/'].isPrefixOf path then none
  else normalizeRelativeWasiPath path

def normalizeWasiLookupPath (path : Text) : Option Text :=
  if path = ['.'] then some [] else normalizeWasiPath path

/-- The part of `path` below `mountPath`, which may be spelled with a trailing `%`. -/
def mountedRelativePath (path mountPath : Text) : Option Text :=
  if path = mountPath ∨ path = mountPath ++ ['%'] then some []
  else if (mountPath ++ ['/']).isPrefixOf path then some (path.drop (mountPath.length + 1))
  else if (mountPath ++ ['%', '/']).isPrefixOf path then some (path.drop (mountPath.length + 2))
  else none

/-- The key of a path below a directory. -/
def resolveScratchPath (basePath path : Text) (lookup : Bool) : Except Errno Text :=
  match (if lookup then normalizeWasiLookupPath else normalizeWasiPath) path with
  | none => .error .notcapable
  | some [] => .ok basePath
  | some normalized => .ok (joinKey basePath normalized)

/-- The key of a path in a mount. -/
def resolveMountedPath (basePath path mountPath : Text) (allowAbsolute lookup : Bool) :
    Except Errno Text :=
  match (if allowAbsolute then mountedRelativePath path mountPath else none) with
  | some mountedAbsolute =>
      resolveScratchPath [] (if mountedAbsolute = [] then ['.'] else mountedAbsolute) lookup
  | none =>
      if ['/'].isPrefixOf path then .error .notcapable
      else resolveScratchPath basePath path lookup

/-- The key of a path below the package root. -/
def resolvePackageRootPath (basePath path : Text) : Except Errno Text :=
  resolveScratchPath basePath
    (if basePath = [] then path.dropWhile (· = '/') else path) true

/-- The mounts visible below the package root. -/
inductive VirtualMount
  | workspace | scratch
  deriving DecidableEq, Repr

/-- The virtual mount that a path relative to the package root goes into, with the key there. -/
def rootVirtualMountPath (basePath path : Text) :
    Except Errno (Option (VirtualMount × Text)) :=
  if basePath ≠ [] then .ok none
  else
    match normalizeWasiLookupPath (path.dropWhile (· = '/')) with
    | none => .error .notcapable
    | some normalized =>
        match mountedRelativePath normalized "workspace".toList with
        | some p => .ok (some (.workspace, p))
        | none =>
            match mountedRelativePath normalized "tmp".toList with
            | some p => .ok (some (.scratch, p))
            | none => .ok none

/-- `value.split("/").filter(Boolean)` of an absolute path; a relative one stands for
`/workspace`. -/
def absolutePathSegments (value : Text) : List Text :=
  ((if ['/'].isPrefixOf value then value else workspacePreopenPath).splitOn '/').filter (· ≠ [])

/-- The loop of `resolveWasiVirtualPath`: `..` leaves a directory, and fails at the root. -/
def walkSegments : List Text → List Text → Option (List Text)
  | segments, [] => some segments
  | segments, segment :: rest =>
      if segment = [] ∨ segment = ['.'] then walkSegments segments rest
      else if segment = ['.', '.'] then
        if segments = [] then none else walkSegments segments.dropLast rest
      else walkSegments (segments ++ [segment]) rest

/-- The absolute path of a text. -/
def resolveWasiVirtualPath (cwd path : Text) : Except Errno Text :=
  if '\x00' ∈ path then .error .inval
  else if path = [] then .error .noent
  else
    match walkSegments
        (if ['/'].isPrefixOf path then []
         else absolutePathSegments (if cwd = [] then workspacePreopenPath else cwd))
        (path.splitOn '/') with
    | none => .error .notcapable
    | some segments => .ok ('/' :: List.intercalate ['/'] segments)

/-- The directory that a run starts in. -/
def normalizeRuntimeCwd (value : Option Text) : Text :=
  match resolveWasiVirtualPath workspacePreopenPath (value.getD workspacePreopenPath) with
  | .ok path => path
  | .error _ => workspacePreopenPath

/-- The key of a package file. `none` rejects the package. -/
def normalizePackageFilePath (value : Text) : Option Text :=
  if value = workspacePreopenPath then none
  else
    let path :=
      if (workspacePreopenPath ++ ['/']).isPrefixOf value then
        value.drop (workspacePreopenPath.length + 1)
      else value
    if ['/'].isPrefixOf path then none else normalizeRelativeWasiPath path

/-! ### Facts about the guest side -/

theorem keptSegments_spec (h : keptSegments segments = some kept) :
    kept = segments.filter (fun s => s ≠ [] ∧ s ≠ ['.']) ∧ ['.', '.'] ∉ kept := by
  induction segments generalizing kept with
  | nil =>
    obtain rfl := Option.some.inj h
    simp
  | cons s rest ih =>
    unfold keptSegments at h
    split at h
    next hs =>
      obtain ⟨hkept, hdots⟩ := ih h
      refine ⟨?_, hdots⟩
      rw [filter_cons_of_neg (by simpa [imp_iff_not_or] using hs), hkept]
    next hs =>
      split at h
      · cases h
      next hdd =>
        obtain ⟨kept', hkept', rfl⟩ := Option.map_eq_some_iff.1 h
        obtain ⟨hkept, hdots⟩ := ih hkept'
        push Not at hs
        refine ⟨?_, by simp [hdots, Ne.symm hdd]⟩
        rw [filter_cons_of_pos (by simpa using hs), hkept]

/-- Canonical segments are all kept. -/
theorem keptSegments_of_canonical (h : ∀ s ∈ segments, CanonicalSegment s) :
    keptSegments segments = some segments := by
  induction segments with
  | nil => rfl
  | cons s rest ih =>
    obtain ⟨hne, hdot, hdots, -⟩ := h s mem_cons_self
    have hrest := ih fun x hx => h x (mem_cons_of_mem _ hx)
    simp [keptSegments, hne, hdot, hdots, hrest]

theorem canonicalKey_of_normalizeRelativeWasiPath (h : normalizeRelativeWasiPath path = some k) :
    CanonicalKey k := by
  unfold normalizeRelativeWasiPath at h
  split at h
  · cases h
  next hpath =>
    split at h
    · cases h
    next segments hsegs =>
      split at h
      · cases h
      next hne =>
        obtain rfl := Option.some.inj h
        obtain ⟨hkept, hdots⟩ := keptSegments_spec hsegs
        have hmem : ∀ s ∈ segments, s ∈ path.splitOn '/' ∧ s ≠ [] ∧ s ≠ ['.'] := by
          intro s hs
          rw [hkept, mem_filter] at hs
          simpa using hs
        intro s hs
        rw [splitOn_join hne fun t ht =>
          not_mem_of_mem_splitOn (hmem t ht).1] at hs
        obtain ⟨hsplit, hempty, hdot⟩ := hmem s hs
        refine ⟨hempty, hdot, fun heq => hdots (heq ▸ hs), fun hnul => hpath ?_⟩
        exact .inr ((mem_iff_exists_mem_splitOn (show '\x00' ≠ '/' by decide)).2 ⟨s, hsplit, hnul⟩)

theorem canonicalKey_of_normalizePackageFilePath {value : Text}
    (h : normalizePackageFilePath value = some k) : CanonicalKey k := by
  unfold normalizePackageFilePath at h
  split at h
  · cases h
  dsimp only at h
  generalize (if (workspacePreopenPath ++ ['/']).isPrefixOf value then
    value.drop (workspacePreopenPath.length + 1) else value) = path at h
  split at h
  · cases h
  · exact canonicalKey_of_normalizeRelativeWasiPath h

theorem normalizeRelativeWasiPath_of_canonical (h : CanonicalKey k) :
    normalizeRelativeWasiPath k = some k := by
  have hnul : '\x00' ∉ k := by
    rw [mem_iff_exists_mem_splitOn (show '\x00' ≠ '/' by decide)]
    rintro ⟨s, hs, hmem⟩
    exact (h s hs).2.2.2 hmem
  have hsplit : k.splitOn '/' ≠ [] := splitOnP_ne_nil _ _
  simp [normalizeRelativeWasiPath, h.ne_nil, hnul, keptSegments_of_canonical h, hsplit,
    intercalate_splitOn]

/-- A canonical key does not start with a slash. -/
theorem CanonicalKey.not_isPrefixOf_slash (h : CanonicalKey k) : ['/'].isPrefixOf k = false := by
  cases k with
  | nil => rfl
  | cons c cs =>
    have hc : c ≠ '/' := by
      rintro rfl
      exact h.not_slash_cons
    simp [List.isPrefixOf, Ne.symm hc]

theorem CanonicalKey.ne_dot (h : CanonicalKey k) : k ≠ ['.'] := by
  rintro rfl
  exact absurd h (by decide)

theorem normalizeWasiPath_of_canonical (h : CanonicalKey k) : normalizeWasiPath k = some k := by
  simp [normalizeWasiPath, h.ne_dot, h.not_isPrefixOf_slash,
    normalizeRelativeWasiPath_of_canonical h]

/-- Lookups normalize like every other call. -/
@[simp]
theorem normalizeWasiLookupPath_eq : normalizeWasiLookupPath = normalizeWasiPath := by
  funext path
  unfold normalizeWasiLookupPath normalizeWasiPath
  split <;> rfl

theorem canonicalPath_of_normalizeWasiPath (h : normalizeWasiPath path = some k) :
    CanonicalPath k := by
  unfold normalizeWasiPath at h
  split at h
  · exact .inl (Option.some.inj h).symm
  split at h
  · cases h
  · exact (canonicalKey_of_normalizeRelativeWasiPath h).canonicalPath

theorem CanonicalPath.joinKey (hbase : CanonicalPath base) (hk : CanonicalKey k) :
    CanonicalPath (joinKey base k) :=
  (CanonicalKey.joinKey hbase hk).canonicalPath

/-- Resolution below a canonical directory yields a canonical key at or below it. -/
theorem resolveScratchPath_spec (h : resolveScratchPath base path lookup = .ok k) :
    k = base ∨ ∃ n, CanonicalKey n ∧ k = joinKey base n := by
  have hnorm : (if lookup then normalizeWasiLookupPath else normalizeWasiPath) path =
      normalizeWasiPath path := by simp
  unfold resolveScratchPath at h
  rw [hnorm] at h
  split at h
  · cases h
  · exact .inl (Except.ok.inj h).symm
  next n hne hn =>
    refine .inr ⟨n, ?_, (Except.ok.inj h).symm⟩
    exact (canonicalPath_of_normalizeWasiPath hn).resolve_left hne

theorem canonicalPath_of_resolveScratchPath (hbase : CanonicalPath base)
    (h : resolveScratchPath base path lookup = .ok k) : CanonicalPath k := by
  rcases resolveScratchPath_spec h with rfl | ⟨n, hn, rfl⟩
  · exact hbase
  · exact hbase.joinKey hn

/-- Every key a mounted path resolves to is canonical. -/
theorem canonicalPath_of_resolveMountedPath {allowAbsolute : Bool} (hbase : CanonicalPath base)
    (h : resolveMountedPath base path mount allowAbsolute lookup = .ok k) : CanonicalPath k := by
  unfold resolveMountedPath at h
  split at h
  · exact canonicalPath_of_resolveScratchPath (.inl rfl) h
  split at h
  · cases h
  · exact canonicalPath_of_resolveScratchPath hbase h

theorem canonicalPath_of_resolvePackageRootPath (hbase : CanonicalPath base)
    (h : resolvePackageRootPath base path = .ok k) : CanonicalPath k :=
  canonicalPath_of_resolveScratchPath hbase h

/-- A path that starts with no slash is not below an absolute mount. -/
theorem mountedRelativePath_eq_none_of_relative (hpath : ['/'].isPrefixOf path = false)
    (hmount : ['/'].isPrefixOf mount = true) : mountedRelativePath path mount = none := by
  obtain ⟨m, rfl⟩ : ∃ m, mount = '/' :: m := by
    cases mount with
    | nil => simp at hmount
    | cons c m =>
      have hc : '/' = c := by simpa [List.isPrefixOf] using hmount
      exact ⟨m, by rw [hc]⟩
  have hne : ∀ t : Text, ('/' :: t).isPrefixOf path = false ∧ path ≠ '/' :: t := by
    intro t
    cases path with
    | nil => simp [List.isPrefixOf]
    | cons c p =>
      have hc : ¬( '/' = c) := by simpa [List.isPrefixOf] using hpath
      simp [List.isPrefixOf, hc, Ne.symm hc]
  simp [mountedRelativePath, hne]

/-- A canonical relative path resolves to its entry below the directory. -/
theorem resolveScratchPath_of_canonical (lookup : Bool) (hk : CanonicalKey k) :
    resolveScratchPath base k lookup = .ok (joinKey base k) := by
  obtain ⟨c, cs, rfl⟩ := exists_cons_of_ne_nil hk.ne_nil
  simp [resolveScratchPath, normalizeWasiPath_of_canonical hk]

theorem resolveMountedPath_of_canonical (allowAbsolute lookup : Bool) (hk : CanonicalKey k)
    (hmount : ['/'].isPrefixOf mount = true) :
    resolveMountedPath base k mount allowAbsolute lookup = .ok (joinKey base k) := by
  have hrel := hk.not_isPrefixOf_slash
  simp [resolveMountedPath, mountedRelativePath_eq_none_of_relative hrel hmount, hrel,
    resolveScratchPath_of_canonical lookup hk]

/-! ### Working directories -/

/-- `/` or the absolute path of a canonical key. -/
def CanonicalCwd (cwd : Text) : Prop := ∃ k, CanonicalPath k ∧ cwd = '/' :: k

/-- A canonical segment as the splitting of a path yields it. -/
def NameSegment (s : Text) : Prop := CanonicalSegment s ∧ '/' ∉ s

/-- Joined names are a canonical key. -/
theorem canonicalPath_intercalate (h : ∀ s ∈ segments, NameSegment s) :
    CanonicalPath (List.intercalate ['/'] segments) := by
  by_cases hempty : segments = []
  · exact .inl (by simp [hempty])
  · refine .inr fun s hs => ?_
    rw [splitOn_join hempty fun t ht => (h t ht).2] at hs
    exact (h s hs).1

/-- The walk adds names to names. -/
theorem nameSegment_walkSegments {start walked : List Text}
    (h : walkSegments start segments = some walked) (hstart : ∀ s ∈ start, NameSegment s)
    (hsegs : ∀ s ∈ segments, '\x00' ∉ s ∧ '/' ∉ s) : ∀ s ∈ walked, NameSegment s := by
  induction segments generalizing start with
  | nil =>
    obtain rfl := Option.some.inj h
    exact hstart
  | cons s rest ih =>
    have hrest := fun t ht => hsegs t (mem_cons_of_mem _ ht)
    unfold walkSegments at h
    split at h
    · exact ih h hstart hrest
    next hs =>
      split at h
      · split at h
        · cases h
        · exact ih h (fun t ht => hstart t (dropLast_subset _ ht)) hrest
      next hdots =>
        refine ih h (fun t ht => ?_) hrest
        rcases mem_append.1 ht with ht | ht
        · exact hstart t ht
        · obtain rfl := mem_singleton.1 ht
          obtain ⟨hnul, hslash⟩ := hsegs t mem_cons_self
          push Not at hs
          exact ⟨⟨hs.1, hs.2, hdots, hnul⟩, hslash⟩

/-- The segments of a canonical working directory are names. -/
theorem nameSegment_absolutePathSegments (h : CanonicalCwd cwd) :
    ∀ s ∈ absolutePathSegments cwd, NameSegment s := by
  obtain ⟨k, hk, rfl⟩ := h
  intro s hs
  have hslash : ['/'].isPrefixOf ('/' :: k) = true := rfl
  simp only [absolutePathSegments, hslash, if_true] at hs
  obtain ⟨hs, hne⟩ := mem_filter.1 hs
  rw [show '/' :: k = [] ++ '/' :: k from rfl, splitOn_append_sep] at hs
  have hname : s ∈ k.splitOn '/' := by
    rcases mem_append.1 hs with hs | hs
    · simp only [splitOn_nil, mem_singleton] at hs
      simp [hs] at hne
    · exact hs
  rcases hk with rfl | hk
  · simp only [splitOn_nil, mem_singleton] at hname
    simp [hname] at hne
  · exact ⟨hk s hname, not_mem_of_mem_splitOn hname⟩

/-- Virtual path resolution yields canonical working directories. -/
theorem canonicalCwd_of_resolveWasiVirtualPath {absolute : Text} (hcwd : CanonicalCwd cwd)
    (h : resolveWasiVirtualPath cwd path = .ok absolute) : CanonicalCwd absolute := by
  unfold resolveWasiVirtualPath at h
  split at h
  · cases h
  next hnul =>
    split at h
    · cases h
    split at h
    · cases h
    next segments hwalk =>
      refine ⟨_, canonicalPath_intercalate ?_, (Except.ok.inj h).symm⟩
      have hne : cwd ≠ [] := by
        obtain ⟨k, -, rfl⟩ := hcwd
        simp
      refine nameSegment_walkSegments hwalk (fun s hs => ?_) fun s hs => ⟨?_, ?_⟩
      · split at hs
        · cases hs
        · exact nameSegment_absolutePathSegments hcwd s (by simpa [hne] using hs)
      · exact fun hmem => hnul
          ((mem_iff_exists_mem_splitOn (show '\x00' ≠ '/' by decide)).2 ⟨s, hs, hmem⟩)
      · exact not_mem_of_mem_splitOn hs

theorem canonicalCwd_workspacePreopenPath : CanonicalCwd workspacePreopenPath :=
  ⟨"workspace".toList, by decide, rfl⟩

theorem canonicalCwd_normalizeRuntimeCwd (value : Option Text) :
    CanonicalCwd (normalizeRuntimeCwd value) := by
  unfold normalizeRuntimeCwd
  split
  next h => exact canonicalCwd_of_resolveWasiVirtualPath canonicalCwd_workspacePreopenPath h
  · exact canonicalCwd_workspacePreopenPath

/-- What lies below a mount in a canonical working directory is a canonical key there. -/
theorem canonicalPath_of_mountedRelativePath (hcwd : CanonicalCwd cwd)
    (h : mountedRelativePath cwd mount = some k) : CanonicalPath k := by
  have hbelow : ∀ m : Text, m ≠ [] → (m ++ ['/']).isPrefixOf cwd = true →
      CanonicalPath (cwd.drop (m.length + 1)) := by
    intro m hm hpre
    obtain ⟨rest, hrest⟩ := isPrefixOf_iff_prefix.1 hpre
    obtain ⟨j, hj, hcwd⟩ := hcwd
    obtain ⟨c, cs, rfl⟩ := exists_cons_of_ne_nil hm
    rw [hcwd] at hrest ⊢
    have hjrest : j = cs ++ '/' :: rest := by simpa using (List.cons.inj hrest.symm).2
    rcases hj with rfl | hj
    · simp at hjrest
    · subst hjrest
      have hrestKey := (canonicalKey_append.1 hj).2
      simpa using hrestKey.canonicalPath
  unfold mountedRelativePath at h
  split at h
  · exact .inl (Option.some.inj h).symm
  next hne =>
    split at h
    next hpre =>
      rw [← Option.some.inj h]
      by_cases hm : mount = []
      · subst hm
        obtain ⟨j, hj, rfl⟩ := hcwd
        simpa using hj
      · exact hbelow mount hm hpre
    · split at h
      next hpre =>
        rw [← Option.some.inj h]
        have := hbelow (mount ++ ['%']) (by simp) (by simpa using hpre)
        simpa [Nat.add_assoc] using this
      · cases h

/-! ### The store side -/

/-- The characters `String.prototype.trim` removes: white space and line terminators. -/
def isTrimmed (c : Char) : Bool :=
  c ∈ ['\t', '\n', '\x0b', '\x0c', '\r', ' ', '\u00a0', '\u1680', '\u2000', '\u2001', '\u2002',
    '\u2003', '\u2004', '\u2005', '\u2006', '\u2007', '\u2008', '\u2009', '\u200a', '\u2028',
    '\u2029', '\u202f', '\u205f', '\u3000', '\ufeff']

def trim (t : Text) : Text := (t.dropWhile isTrimmed).rdropWhile isTrimmed

/-- The kinds of `BrowserWorkspaceError`. -/
inductive WorkspaceErrorKind
  | invalidPath | notFile | notFound | notDirectory | alreadyExists | notEmpty | invalidSnapshot
  | invalidContent | unsupported | transport
  deriving DecidableEq, Repr

/-- A `BrowserWorkspaceError`. -/
structure WorkspaceError where
  kind : WorkspaceErrorKind
  message : String
  deriving DecidableEq, Repr

/-- The key a store path names; the root has key `""`. -/
def normalizeWorkspacePath (path : Text) : Except WorkspaceError Text :=
  let raw := trim path
  if raw = [] ∨ '\x00' ∈ raw ∨ '\\' ∈ raw then
    .error ⟨.invalidPath, "workspace path is invalid"⟩
  else
    let relative :=
      if raw = workspacePreopenPath then some []
      else if (workspacePreopenPath ++ ['/']).isPrefixOf raw then
        some (raw.drop (workspacePreopenPath.length + 1))
      else if ['/'].isPrefixOf raw then none
      else some raw
    match relative with
    | none => .error ⟨.invalidPath, "workspace path must be under /workspace"⟩
    | some relative =>
        match keptSegments (relative.splitOn '/') with
        | none => .error ⟨.invalidPath, "workspace path must not traverse upward"⟩
        | some parts => .ok (List.intercalate ['/'] parts)

/-- The absolute path of a key, as snapshots spell it. -/
def workspacePath (k : Text) : Text :=
  if k = [] then workspacePreopenPath else workspacePreopenPath ++ '/' :: k

/-- The store maps the exported spelling of the key back to the key. -/
def StoreStable (k : Text) : Prop := normalizeWorkspacePath (workspacePath k) = .ok k

/-- Stable keys can be recognised. -/
instance (k : Text) : Decidable (StoreStable k) := inferInstanceAs (Decidable (_ = _))

theorem length_intercalate (segments : List Text) :
    (List.intercalate ['/'] segments).length =
      (segments.map List.length).sum + (segments.length - 1) := by
  induction segments with
  | nil => rfl
  | cons s rest ih =>
    cases rest with
    | nil => simp
    | cons =>
      rw [intercalate_cons_cons]
      simp only [length_append, ih, map_cons, sum_cons, length_cons]
      simp
      omega

/-- Normalization never lengthens a relative path. -/
theorem length_intercalate_keptSegments_le (h : keptSegments (k.splitOn '/') = some kept) :
    (List.intercalate ['/'] kept).length ≤ k.length := by
  have hsub : List.Sublist kept (k.splitOn '/') := by
    rw [(keptSegments_spec h).1]
    exact filter_sublist
  have hk : k.length = (List.intercalate ['/'] (k.splitOn '/')).length := by
    rw [intercalate_splitOn]
  rw [hk, length_intercalate, length_intercalate]
  have hlen := hsub.length_le
  have hsum := (hsub.map List.length).sum_le_sum fun _ _ => Nat.zero_le _
  omega

/-- The trimmed spelling of a key loses exactly the white space at the end of the key. -/
theorem trim_workspacePath (k : Text) :
    trim (workspacePreopenPath ++ '/' :: k) =
      List.rdropWhile isTrimmed (workspacePreopenPath ++ '/' :: k) := by
  rfl

/-- What is trimmed has no white space left. -/
theorem trim_trim (t : Text) : trim (trim t) = trim t := by
  unfold trim
  have hhead : ((t.dropWhile isTrimmed).rdropWhile isTrimmed).dropWhile isTrimmed =
      (t.dropWhile isTrimmed).rdropWhile isTrimmed := by
    rw [dropWhile_eq_self_iff]
    intro hlength
    have hdrop := rdropWhile_prefix isTrimmed (t.dropWhile isTrimmed)
    obtain ⟨rest, hrest⟩ := hdrop
    have hlength' : 0 < (t.dropWhile isTrimmed).length := by
      rw [← hrest, length_append]
      omega
    have hget := dropWhile_get_zero_not isTrimmed t hlength'
    simp only [get_eq_getElem] at hget ⊢
    rw [getElem_of_eq hrest.symm hlength', getElem_append_left hlength] at hget
    exact hget
  rw [hhead]
  exact rdropWhile_idempotent isTrimmed _

theorem CanonicalKey.nul_not_mem (hk : CanonicalKey k) : '\x00' ∉ k := by
  rw [mem_iff_exists_mem_splitOn (show '\x00' ≠ '/' by decide)]
  rintro ⟨s, hs, hmem⟩
  exact (hk s hs).2.2.2 hmem

/-- Normalizing a shortened spelling cannot give the key back. -/
theorem normalizeWorkspacePath_ne_of_isPrefix {init : Text}
    (hshort : trim path <+: workspacePreopenPath ++ '/' :: init) (hlen : init.length < k.length) :
    normalizeWorkspacePath path ≠ .ok k := by
  intro h
  obtain ⟨rest, hrest⟩ := hshort
  have hraw : (trim path).length ≤ init.length + (workspacePreopenPath.length + 1) := by
    have := congrArg List.length hrest
    simp only [length_append, length_cons] at this
    omega
  simp only [normalizeWorkspacePath] at h
  split at h
  · cases h
  next hok =>
    have hslash : ['/'].isPrefixOf (trim path) = true := by
      cases hp : trim path with
      | nil => exact absurd (.inl hp) hok
      | cons c cs =>
        rw [hp] at hrest
        have hc : c = '/' := (List.cons.inj hrest).1
        simp [hc]
    split at h
    · cases h
    next relative hrel =>
      have hshort : relative.length ≤ init.length := by
        split at hrel
        · simp [← Option.some.inj hrel]
        split at hrel
        · rw [← Option.some.inj hrel, length_drop]
          omega
        · simp at hrel
      split at h
      · cases h
      next parts hparts =>
        have hle := length_intercalate_keptSegments_le hparts
        rw [Except.ok.inj h] at hle
        omega

/-- A path that ends in white space loses it. -/
theorem trim_workspacePath_isPrefix {c : Char} (hc : isTrimmed c = true) (init : Text) :
    trim (workspacePreopenPath ++ '/' :: (init ++ [c])) <+: workspacePreopenPath ++
      '/' :: init := by
  rw [trim_workspacePath, ← cons_append, ← append_assoc, rdropWhile_concat_pos _ _ _ hc]
  exact rdropWhile_prefix _ _

/-- Exactly the keys without a backslash that do not end in white space survive the way into
the store and back. -/
theorem storeStable_iff (hk : CanonicalKey k) :
    StoreStable k ↔ '\\' ∉ k ∧ ∀ c ∈ k.getLast?, isTrimmed c = false := by
  obtain ⟨init, c, rfl⟩ := (eq_nil_or_concat' k).resolve_left hk.ne_nil
  have hpath : workspacePath (init ++ [c]) = workspacePreopenPath ++ '/' :: (init ++ [c]) := by
    simp [workspacePath]
  have hsnoc : workspacePreopenPath ++ '/' :: (init ++ [c]) =
      (workspacePreopenPath ++ '/' :: init) ++ [c] := by simp
  simp only [StoreStable, hpath, List.getLast?_append, List.getLast?_singleton,
    Option.some_or, Option.mem_some_iff, forall_eq']
  by_cases hc : isTrimmed c = true
  · simp only [hc, Bool.true_eq_false, and_false, iff_false]
    exact normalizeWorkspacePath_ne_of_isPrefix (trim_workspacePath_isPrefix hc init) (by simp)
  · have htrim : trim (workspacePreopenPath ++ '/' :: (init ++ [c])) =
        workspacePreopenPath ++ '/' :: (init ++ [c]) := by
      rw [trim_workspacePath, hsnoc, rdropWhile_concat_neg _ _ _ hc]
    have hnul : '\x00' ∉ workspacePreopenPath ++ '/' :: (init ++ [c]) := by
      rw [mem_append, mem_cons]
      rintro (h | h | h)
      · exact absurd h (by decide)
      · exact absurd h (by decide)
      · exact hk.nul_not_mem h
    have hback : '\\' ∈ workspacePreopenPath ++ '/' :: (init ++ [c]) ↔ '\\' ∈ init ++ [c] := by
      have hconst : '\\' ∉ workspacePreopenPath ∧ '\\' ≠ '/' := by decide
      rw [mem_append, mem_cons]
      tauto
    have hne : workspacePreopenPath ++ '/' :: (init ++ [c]) ≠ workspacePreopenPath := by
      intro h
      have := congrArg List.length h
      simp at this
    have hpre : (workspacePreopenPath ++ ['/']).isPrefixOf
        (workspacePreopenPath ++ '/' :: (init ++ [c])) = true := by
      rw [List.isPrefixOf_iff_prefix]
      exact ⟨init ++ [c], by simp⟩
    have hdrop : (workspacePreopenPath ++ '/' :: (init ++ [c])).drop
        (workspacePreopenPath.length + 1) = init ++ [c] := by
      rw [show workspacePreopenPath ++ '/' :: (init ++ [c]) =
        (workspacePreopenPath ++ ['/']) ++ (init ++ [c]) by simp]
      exact drop_left' (by simp)
    by_cases hb : '\\' ∈ init ++ [c]
    · simp [normalizeWorkspacePath, htrim, hback.2 hb, hb]
    · simp only [normalizeWorkspacePath, htrim, hnul, hback, hb, hne, hpre, hdrop]
      simp [keptSegments_of_canonical hk, intercalate_splitOn, hc]

end WasmHost

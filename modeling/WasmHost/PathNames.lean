import WasmHost.Lib.PathNames
import WasmHost.Lib.SubtreeMove
import WasmHost.Path

/-!
# The names along a path

What a path text is about, spelled as it may be: its segments without the empty ones and the dots.
The resolvers of the guest side lead to the key whose steps are the names of the base directory and
those of the text.

* `normalizeWasiPath_isSome_iff`: the texts that are not refused.
* `steps_of_resolveScratchPath`, `steps_of_resolveMountedPath`: the steps to the resolved key.
-/

namespace WasmHost

open SepPath

/-- Whether a segment of a path names something. -/
def isNamed (segment : Text) : Bool := segment ≠ [] ∧ segment ≠ ['.']

/-- The names along a path. -/
def pathNames (path : Text) : List Text := SepPath.names '/' isNamed path

theorem isNamed_nil : isNamed [] = false := rfl

variable {path k mountPath : Text} (base : Text) {lookup : Bool}

theorem not_slash_mem_pathNames {s : Text} (h : s ∈ pathNames path) : '/' ∉ s :=
  not_mem_of_mem_names h

@[simp]
theorem pathNames_nil : pathNames [] = [] := names_nil isNamed_nil

/-- The loop keeps the names, unless one of the segments is `..`. -/
theorem keptSegments_eq_some_iff {segments kept : List Text} :
    keptSegments segments = some kept ↔
      kept = segments.filter isNamed ∧ ['.', '.'] ∉ segments := by
  induction segments generalizing kept with
  | nil =>
    rw [keptSegments, Option.some.injEq, List.filter_nil]
    exact ⟨fun h => ⟨h.symm, List.not_mem_nil⟩, fun h => h.1.symm⟩
  | cons s rest ih =>
    unfold keptSegments
    split
    next hs =>
      have hdots : ['.', '.'] ≠ s := by
        rintro rfl
        simp at hs
      rw [ih, List.filter_cons_of_neg (by simpa [isNamed, imp_iff_not_or] using hs),
        List.mem_cons, or_iff_right hdots]
    next hs =>
      push Not at hs
      split
      next hdots => simp [hdots]
      next hdots =>
        rw [List.filter_cons_of_pos (by simpa [isNamed] using hs), List.mem_cons,
          or_iff_right (Ne.symm hdots), Option.map_eq_some_iff]
        constructor
        · rintro ⟨kept', hkept, rfl⟩
          obtain ⟨rfl, hno⟩ := ih.1 hkept
          exact ⟨rfl, hno⟩
        · rintro ⟨rfl, hno⟩
          exact ⟨_, ih.2 ⟨rfl, hno⟩, rfl⟩

theorem steps_joinKey (hk : k ≠ []) :
    SepPath.steps '/' (joinKey base k) = SepPath.steps '/' base ++ SepPath.steps '/' k := by
  unfold joinKey
  split
  next hbase => rw [hbase, steps_nil, List.nil_append]
  next hbase => rw [steps_append_sep hbase, steps_of_ne_nil hk]

theorem normalizeRelativeWasiPath_eq_some_iff :
    normalizeRelativeWasiPath path = some k ↔
      '\x00' ∉ path ∧ ['.', '.'] ∉ path.splitOn '/' ∧ pathNames path ≠ [] ∧
        k = List.intercalate ['/'] (pathNames path) := by
  unfold normalizeRelativeWasiPath
  split
  next hrefused =>
    refine iff_of_false (by simp) ?_
    rintro ⟨hnul, -, hne, -⟩
    rcases hrefused with rfl | hmem
    · exact hne pathNames_nil
    · exact hnul hmem
  next hpath =>
    have hnul : '\x00' ∉ path := (not_or.1 hpath).2
    split
    next hnone =>
      refine iff_of_false (by simp) ?_
      rintro ⟨-, hdots, -, -⟩
      rw [keptSegments_eq_some_iff.2 ⟨rfl, hdots⟩] at hnone
      cases hnone
    next kept hkept =>
      obtain ⟨rfl, hdots⟩ := keptSegments_eq_some_iff.1 hkept
      change (if pathNames path = [] then _ else some (List.intercalate ['/'] (pathNames path))) =
        some k ↔ _
      split
      next hnil => simp [hnil]
      next hne => simp [hnul, hdots, hne, eq_comm]

/-- A text that is not refused below a directory. -/
def Spelled (path : Text) : Prop :=
  path = ['.'] ∨ (['/'].isPrefixOf path = false ∧ '\x00' ∉ path ∧
    ['.', '.'] ∉ path.splitOn '/' ∧ pathNames path ≠ [])

theorem normalizeWasiPath_isSome_iff : (∃ k, normalizeWasiPath path = some k) ↔ Spelled path := by
  unfold normalizeWasiPath Spelled
  split
  next hdot => exact iff_of_true ⟨[], rfl⟩ (.inl hdot)
  next hdot =>
    rw [or_iff_right hdot]
    split
    next hslash => simp [hslash]
    next hslash =>
      simp only [normalizeRelativeWasiPath_eq_some_iff]
      constructor
      · rintro ⟨k, hnul, hdots, hne, -⟩
        exact ⟨Bool.eq_false_of_not_eq_true hslash, hnul, hdots, hne⟩
      · rintro ⟨-, hnul, hdots, hne⟩
        exact ⟨_, hnul, hdots, hne, rfl⟩

/-- The steps of a normalized text are its names. -/
theorem steps_of_normalizeWasiPath (h : normalizeWasiPath path = some k) :
    SepPath.steps '/' k = pathNames path := by
  unfold normalizeWasiPath at h
  split at h
  next hdot =>
    rw [← Option.some.inj h, hdot]
    rfl
  · split at h
    · cases h
    obtain ⟨-, -, hne, rfl⟩ := normalizeRelativeWasiPath_eq_some_iff.1 h
    have hjoin : (List.intercalate ['/'] (pathNames path)).splitOn '/' = pathNames path :=
      splitOn_join hne fun s hs => not_slash_mem_pathNames hs
    have hnonempty : List.intercalate ['/'] (pathNames path) ≠ [] := by
      intro hnil
      rw [hnil, List.splitOn_nil] at hjoin
      have hmem : [] ∈ pathNames path := hjoin ▸ List.mem_singleton_self []
      exact absurd (mem_names.1 hmem).2 (by decide)
    rw [steps_of_ne_nil hnonempty, hjoin]

/-! ### Resolving below a directory -/

theorem steps_of_resolveScratchPath {base : Text} (h : resolveScratchPath base path lookup = .ok k)
    : SepPath.steps '/' k = SepPath.steps '/' base ++ pathNames path := by
  have hnorm : (if lookup then normalizeWasiLookupPath else normalizeWasiPath) path =
      normalizeWasiPath path := by simp
  unfold resolveScratchPath at h
  rw [hnorm] at h
  split at h
  · cases h
  next hroot =>
    rw [← Except.ok.inj h, ← steps_of_normalizeWasiPath hroot, steps_nil, List.append_nil]
  next n hne hn =>
    rw [← Except.ok.inj h, steps_joinKey base hne, steps_of_normalizeWasiPath hn]

theorem exists_resolveScratchPath (lookup : Bool) (h : Spelled path) :
    ∃ k, resolveScratchPath base path lookup = .ok k := by
  obtain ⟨n, hn⟩ := normalizeWasiPath_isSome_iff.2 h
  have hnorm : (if lookup then normalizeWasiLookupPath else normalizeWasiPath) path = some n := by
    simpa using hn
  unfold resolveScratchPath
  rw [hnorm]
  split
  next hnone => cases hnone
  · exact ⟨_, rfl⟩
  · exact ⟨_, rfl⟩

/-- What a text names from a directory of a mount: an absolute text below the mount path leaves the
directory aside. -/
def namesFrom (base path mountPath : Text) : List Text :=
  match mountedRelativePath path mountPath with
  | some rest => pathNames rest
  | none => SepPath.steps '/' base ++ pathNames path

theorem steps_of_resolveMountedPath {base : Text} {allowAbsolute : Bool}
    (hmount : ['/'].isPrefixOf mountPath = true)
    (h : resolveMountedPath base path mountPath allowAbsolute lookup = .ok k) :
    SepPath.steps '/' k = namesFrom base path mountPath := by
  unfold resolveMountedPath at h
  split at h
  next rest hrest =>
    obtain ⟨-, hrest⟩ : allowAbsolute = true ∧ mountedRelativePath path mountPath = some rest := by
      cases allowAbsolute with
      | false => cases hrest
      | true => exact ⟨rfl, hrest⟩
    have hnames : pathNames (if rest = [] then ['.'] else rest) = pathNames rest := by
      split
      next hnil => rw [hnil]; rfl
      · rfl
    rw [steps_of_resolveScratchPath h, namesFrom, hrest, steps_nil, List.nil_append, hnames]
  · split at h
    · cases h
    next hrel =>
      have hnone :=
        mountedRelativePath_eq_none_of_relative (Bool.eq_false_of_not_eq_true hrel) hmount
      rw [steps_of_resolveScratchPath h, namesFrom, hnone]

/-- A relative text is looked up from the directory. -/
theorem resolveMountedPath_of_relative (base mountPath : Text) (allowAbsolute lookup : Bool)
    (hmount : ['/'].isPrefixOf mountPath = true) (hrel : ['/'].isPrefixOf path = false) :
    resolveMountedPath base path mountPath allowAbsolute lookup =
      resolveScratchPath base path lookup := by
  simp [resolveMountedPath, mountedRelativePath_eq_none_of_relative hrel hmount, hrel]

/-- The mount path alone, and an absolute text behind it, are looked up from the root. -/
theorem exists_resolveMountedPath_of_absolute {rest : Text} (lookup : Bool)
    (hrest : mountedRelativePath path mountPath = some rest) (h : rest = [] ∨ Spelled rest) :
    ∃ k, resolveMountedPath base path mountPath true lookup = .ok k := by
  have hspelled : Spelled (if rest = [] then ['.'] else rest) := by
    split
    · exact .inl rfl
    next hne => exact h.resolve_left hne
  obtain ⟨k, hk⟩ := exists_resolveScratchPath [] lookup hspelled
  exact ⟨k, by simpa [resolveMountedPath, hrest] using hk⟩

theorem Spelled.not_isPrefixOf_slash (h : Spelled path) : ['/'].isPrefixOf path = false := by
  rcases h with rfl | ⟨hrel, -⟩
  · rfl
  · exact hrel

end WasmHost

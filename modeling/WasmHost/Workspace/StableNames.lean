import WasmHost.PathNames
import WasmHost.Workspace.Store

/-!
# Names that the store reads back

The store spells its keys as absolute paths, and reading such a path back trims it. What is lost is
only ever lost at the end: a key is read back as it is, or as a shorter one.

* `eq_or_length_lt_of_normalizeWorkspacePath`: what a spelled key is read back as.
* `storeStable_of_onto`: keys that are all read back from some of them are read back from
  themselves.
* `Store.canonicalPath_of_loadSnapshot`: the keys of a loaded store.
-/

namespace WasmHost

open OrdMap List

/-- What is trimmed keeps its other characters. -/
theorem mem_rdropWhile_of_mem {p : Char → Bool} {t : Text} {c : Char} (hc : c ∈ t)
    (hp : p c = false) : c ∈ t.rdropWhile p := by
  rw [List.rdropWhile, mem_reverse]
  rw [← mem_reverse, ← takeWhile_append_dropWhile (p := p) (l := t.reverse)] at hc
  refine (mem_append.1 hc).resolve_left fun htaken => ?_
  rw [mem_takeWhile_imp htaken] at hp
  cases hp

variable {k : Text}

/-- A key is read back as it is or as a shorter one. -/
theorem eq_or_length_lt_of_normalizeWorkspacePath {j : Text} (hj : CanonicalPath j)
    (h : normalizeWorkspacePath (workspacePath j) = .ok k) : k = j ∨ k.length < j.length := by
  by_cases hstable : StoreStable j
  · exact .inl (Except.ok.inj (h.symm.trans hstable))
  · right
    have hkey : CanonicalKey j := hj.resolve_left fun hnil => hstable (hnil ▸ by decide)
    obtain ⟨init, c, rfl⟩ := (eq_nil_or_concat' j).resolve_left hkey.ne_nil
    have hpath : workspacePath (init ++ [c]) = workspacePreopenPath ++ '/' :: (init ++ [c]) := by
      simp [workspacePath]
    rw [hpath] at h
    by_cases hback : '\\' ∈ init ++ [c]
    · -- a backslash is not trimmed away, and is refused
      have hmem : '\\' ∈ trim (workspacePreopenPath ++ '/' :: (init ++ [c])) := by
        rw [trim_workspacePath]
        exact mem_rdropWhile_of_mem
          (mem_append_right _ (mem_cons_of_mem _ hback)) (by decide)
      simp [normalizeWorkspacePath, hmem] at h
    · have hc : isTrimmed c = true := by
        by_contra hno
        exact hstable ((storeStable_iff hkey).2 ⟨hback, by simpa using hno⟩)
      by_contra hlong
      rw [length_append, length_singleton] at hlong
      exact normalizeWorkspacePath_ne_of_isPrefix (trim_workspacePath_isPrefix hc init) (by omega) h

/-- Keys of bounded length that are all read back from some of them are all stable. -/
theorem storeStable_of_onto (keys : Text → Prop) (bound : ℕ)
    (hbound : ∀ k, keys k → k.length ≤ bound) (hcanonical : ∀ k, keys k → CanonicalPath k)
    (honto : ∀ k, keys k → ∃ j, keys j ∧ normalizeWorkspacePath (workspacePath j) = .ok k)
    (hk : keys k) : StoreStable k := by
  induction hn : bound - k.length using Nat.strong_induction_on generalizing k with
  | _ n ih =>
    obtain ⟨j, hj, hread⟩ := honto k hk
    rcases eq_or_length_lt_of_normalizeWorkspacePath (hcanonical j hj) hread with rfl | hlt
    · exact hread
    · -- the longer key would be stable
      have hle := hbound j hj
      have hstable : StoreStable j := ih (bound - j.length) (by omega) hj rfl
      obtain rfl := Except.ok.inj (hread.symm.trans hstable)
      exact hstable

/-- Every key of the store is canonical. -/
theorem canonicalPath_of_normalizeWorkspacePath {path : Text}
    (h : normalizeWorkspacePath path = .ok k) : CanonicalPath k := by
  simp only [normalizeWorkspacePath] at h
  split at h
  · cases h
  next hraw =>
    rw [not_or, not_or] at hraw
    obtain ⟨-, hnul, -⟩ := hraw
    split at h
    · cases h
    next relative hrelative =>
      have hnul' : '\x00' ∉ relative := by
        intro hmem
        apply hnul
        split at hrelative
        · rw [← Option.some.inj hrelative] at hmem
          cases hmem
        · split at hrelative
          · rw [← Option.some.inj hrelative] at hmem
            exact mem_of_mem_drop hmem
          · split at hrelative
            · cases hrelative
            · rwa [Option.some.inj hrelative]
      split at h
      · cases h
      next parts hparts =>
        obtain rfl := Except.ok.inj h
        obtain ⟨rfl, hdots⟩ := keptSegments_eq_some_iff.1 hparts
        refine canonicalPath_intercalate fun s hs => ?_
        obtain ⟨hmem, hnamed⟩ := mem_filter.1 hs
        obtain ⟨hne, hdot⟩ : s ≠ [] ∧ s ≠ ['.'] := by simpa [isNamed] using hnamed
        refine ⟨⟨hne, hdot, ?_, fun hin => hnul' ?_⟩, SepPath.not_mem_of_mem_splitOn hmem⟩
        · rintro rfl
          exact hdots hmem
        · exact (SepPath.mem_iff_exists_mem_splitOn (show '\x00' ≠ '/' by decide)).2 ⟨s, hmem, hin⟩

theorem Store.canonicalPath_of_loadSnapshot {now : ℕ} {snapshot : Snapshot} {store : Store}
    (h : loadSnapshot now snapshot = .ok store)
    (hk : store.files.has k = true ∨ store.directories.has k = true) : CanonicalPath k := by
  obtain ⟨-, directories, files, hdirectories, hfiles, rfl, -⟩ := loadSnapshot_eq_ok_iff.1 h
  rcases hk with hk | hk
  · obtain ⟨record, hrecord⟩ := (has_iff _ _).1 hk
    have hmem := (exists_mem_of_get_setAll _ _ hrecord).resolve_right (by simp)
    obtain ⟨entry, -, hentry⟩ := Except.exists_of_mem_mapM hfiles hmem
    exact canonicalPath_of_normalizeWorkspacePath (loadFile_eq_ok_iff.1 hentry).1
  · obtain ⟨record, hrecord⟩ := (has_iff _ _).1 hk
    rcases exists_mem_of_get_setAll _ _ hrecord with hmem | hroot
    · obtain ⟨entry, -, hentry⟩ := Except.exists_of_mem_mapM hdirectories hmem
      exact canonicalPath_of_normalizeWorkspacePath (loadDirectory_eq_ok_iff.1 hentry).1
    · rw [get_set] at hroot
      split at hroot
      next heq => exact .inl heq
      · cases hroot

/-- The keys of a store are not longer than the longest of them. -/
theorem exists_length_le {β : Type} (m : OrdMap Text β) :
    ∃ bound, ∀ k, m.has k = true → k.length ≤ bound := by
  refine ⟨(m.keys.map List.length).foldr max 0, fun k hk => ?_⟩
  have hmem := (OrdMap.mem_keys m k).2 hk
  generalize m.keys = keys at hmem
  induction keys with
  | nil => cases hmem
  | cons j keys ih =>
    rw [map_cons, foldr_cons]
    rcases mem_cons.1 hmem with rfl | htail
    · exact le_max_left _ _
    · exact (ih htail).trans (le_max_right _ _)

end WasmHost

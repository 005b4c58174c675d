import WasmHost.Workspace.Operations

/-!
# Stores that hold the same

Two stores that hold the same directories and files may keep them in another order, as after a
snapshot has been loaded again. Their checks come out alike.
-/

namespace WasmHost

namespace Store

/-- The stores hold the same directories and files. -/
structure Same (s s' : Store) : Prop where
  directories : ∀ k, s'.directories.get k = s.directories.get k
  files : ∀ k, s'.files.get k = s.files.get k

theorem Same.refl (s : Store) : s.Same s := ⟨fun _ => rfl, fun _ => rfl⟩

theorem Same.symm {s s' : Store} (h : s.Same s') : s'.Same s :=
  ⟨fun k => (h.directories k).symm, fun k => (h.files k).symm⟩

theorem Same.trans {s s' s'' : Store} (h : s.Same s') (h' : s'.Same s'') : s.Same s'' :=
  ⟨fun k => (h'.directories k).trans (h.directories k), fun k => (h'.files k).trans (h.files k)⟩

section

variable {s s' : Store} (h : s.Same s')
include h

theorem Same.has_directories (k : Text) : s'.directories.has k = s.directories.has k := by
  rw [OrdMap.has, OrdMap.has, h.directories]

theorem Same.has_files (k : Text) : s'.files.has k = s.files.has k := by
  rw [OrdMap.has, OrdMap.has, h.files]

end

end Store

end WasmHost

import WasmHost.Lib.SepPath

/-!
# Moving a subtree

A key read as the list of steps that lead from the root to what it names. The root has no steps, so
that everything is below it. Moving a subtree puts the steps to its new place before what is left
behind the old one.

* `steps_injective`: two keys with the same steps are the same key.
* `atOrBelow_iff_steps`: except for the root, a key is at or below another as a text exactly when it
  is so as a path.
* `steps_move`: rewriting the beginning of a key moves the path, unless one of the two places is
  the root.
-/

namespace SepPath

section Reroot

variable {γ : Type} [DecidableEq γ]

/-- Where a path is after the subtree at `src` has moved to `tgt`. -/
def reroot (src tgt path : List γ) : List γ :=
  if src <+: path then tgt ++ path.drop src.length else path

theorem reroot_append (src tgt rest : List γ) : reroot src tgt (src ++ rest) = tgt ++ rest := by
  simp [reroot]

theorem reroot_of_not_isPrefix {src path : List γ} (tgt : List γ) (h : ¬src <+: path) :
    reroot src tgt path = path :=
  if_neg h

/-- A subtree that stays where it is. -/
theorem reroot_self (src path : List γ) : reroot src src path = path := by
  by_cases h : src <+: path
  · obtain ⟨rest, rfl⟩ := h
    exact reroot_append src src rest
  · exact reroot_of_not_isPrefix src h

end Reroot

section Steps

variable {α : Type} [DecidableEq α] (sep : α)

/-- The steps from the root to a key. -/
def steps (k : List α) : List (List α) := if k = [] then [] else k.splitOn sep

variable {sep} {p k : List α}

@[simp]
theorem steps_nil : steps sep ([] : List α) = [] := if_pos rfl

theorem steps_of_ne_nil (h : k ≠ []) : steps sep k = k.splitOn sep := if_neg h

theorem splitOn_ne_nil (k : List α) : k.splitOn sep ≠ [] := by
  rw [List.splitOn]
  exact List.splitOnP_ne_nil _ k

theorem steps_eq_nil_iff : steps sep k = [] ↔ k = [] := by
  constructor
  · intro h
    by_contra hne
    rw [steps_of_ne_nil hne] at h
    exact splitOn_ne_nil k h
  · rintro rfl
    exact steps_nil

/-- Two keys with the same steps are the same key. -/
theorem steps_injective : Function.Injective (steps sep) := by
  intro k k' h
  by_cases hk : k = []
  · rw [hk, steps_nil] at h
    rw [hk, steps_eq_nil_iff.1 h.symm]
  · have hk' : k' ≠ [] := by
      rintro rfl
      exact hk (steps_eq_nil_iff.1 (h.trans steps_nil))
    rw [steps_of_ne_nil hk, steps_of_ne_nil hk'] at h
    have hjoin := congrArg (List.intercalate [sep]) h
    rwa [List.intercalate_splitOn, List.intercalate_splitOn] at hjoin

theorem steps_append_sep (hp : p ≠ []) (r : List α) :
    steps sep (p ++ sep :: r) = steps sep p ++ r.splitOn sep := by
  rw [steps_of_ne_nil (by simp), steps_of_ne_nil hp, splitOn_append_sep]

/-- Below a key that is not the root, texts and paths say the same. -/
theorem atOrBelow_iff_steps (hp : p ≠ []) : AtOrBelow sep p k ↔ steps sep p <+: steps sep k := by
  constructor
  · rintro (rfl | hbelow)
    · exact List.prefix_refl _
    · obtain ⟨r, rfl⟩ := below_iff.1 hbelow
      rw [steps_append_sep hp]
      exact List.prefix_append _ _
  · rintro ⟨rest, hrest⟩
    by_cases hnil : rest = []
    · rw [hnil, List.append_nil] at hrest
      exact .inl (steps_injective hrest).symm
    · -- the steps that are left are those of a key below
      have hk : k ≠ [] := by
        rintro rfl
        rw [steps_nil] at hrest
        exact hnil (List.append_eq_nil_iff.1 hrest).2
      have hsep : ∀ s ∈ rest, sep ∉ s := by
        intro s hs
        refine not_mem_of_mem_splitOn (k := k) ?_
        rw [← steps_of_ne_nil hk, ← hrest]
        exact List.mem_append_right _ hs
      have hsteps : steps sep (p ++ sep :: List.intercalate [sep] rest) = steps sep k := by
        rw [steps_append_sep hp, splitOn_join hnil hsep, hrest]
      rw [← steps_injective hsteps]
      exact (below_append p _).atOrBelow

/-- Unless one of the places is the root, rewriting the beginning of a key moves its path. -/
theorem steps_move {src tgt : List α} (hsrc : src ≠ []) (htgt : tgt ≠ []) (k : List α) :
    steps sep (move sep src tgt k) = reroot (steps sep src) (steps sep tgt) (steps sep k) := by
  by_cases hat : AtOrBelow sep src k
  · rw [move_of_atOrBelow tgt hat]
    rcases hat with rfl | hbelow
    · have h := reroot_append (steps sep k) (steps sep tgt) []
      rw [List.append_nil, List.append_nil] at h
      rw [rebase_self, h]
    · obtain ⟨r, rfl⟩ := below_iff.1 hbelow
      rw [rebase_append, steps_append_sep htgt, steps_append_sep hsrc, reroot_append]
  · rw [move_of_not_atOrBelow tgt hat,
      reroot_of_not_isPrefix _ fun h => hat ((atOrBelow_iff_steps hsrc).2 h)]

end Steps

end SepPath

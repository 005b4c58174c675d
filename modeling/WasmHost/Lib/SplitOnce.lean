import Mathlib.Data.List.TakeDrop
import Mathlib.Data.List.TakeWhile
import Mathlib.Tactic.Common

/-!
# Cutting a list at an element

`splitOnce` cuts a list in two at the first place where an element stands and drops it there.
`splitOnce_eq_some_iff` and `splitOnce_eq_none_iff` say what it finds.
-/

variable {α : Type} [DecidableEq α]

/-- What is before and what is behind the first `sep`. -/
def splitOnce (sep : α) (t : List α) : Option (List α × List α) :=
  match t.span (· ≠ sep) with
  | (_, []) => none
  | (left, _ :: right) => some (left, right)

theorem splitOnce_append {sep : α} {left : List α} (h : sep ∉ left) (right : List α) :
    splitOnce sep (left ++ sep :: right) = some (left, right) := by
  have hspan : (left ++ sep :: right).span (· ≠ sep) = (left, sep :: right) := by
    rw [List.span_eq_takeWhile_dropWhile]
    refine Prod.ext ?_ ?_
    · rw [List.takeWhile_append_of_pos (by grind)]
      simp
    · rw [List.dropWhile_append_of_pos (by grind)]
      simp
  rw [splitOnce, hspan]

theorem splitOnce_eq_some_iff {sep : α} {t left right : List α} :
    splitOnce sep t = some (left, right) ↔ t = left ++ sep :: right ∧ sep ∉ left := by
  constructor
  · intro h
    unfold splitOnce at h
    rw [List.span_eq_takeWhile_dropWhile] at h
    split at h
    · exact absurd h (by simp)
    next first c rest hspan =>
      obtain ⟨rfl, rfl⟩ : first = left ∧ rest = right := by simpa using h
      obtain ⟨htake, hdrop⟩ : t.takeWhile (· ≠ sep) = first ∧
          t.dropWhile (· ≠ sep) = c :: rest := by simpa using hspan
      have hc : c = sep := by
        have := List.head?_dropWhile_not (fun c => decide (c ≠ sep)) t
        rw [hdrop] at this
        simpa using this
      refine ⟨?_, ?_⟩
      · rw [← hc, ← hdrop, ← htake, List.takeWhile_append_dropWhile]
      · intro hmem
        rw [← htake] at hmem
        simpa using List.mem_takeWhile_imp hmem
  · rintro ⟨rfl, hnot⟩
    exact splitOnce_append hnot right

theorem splitOnce_eq_none_iff {sep : α} {t : List α} : splitOnce sep t = none ↔ sep ∉ t := by
  constructor
  · intro hnone hmem
    obtain ⟨left, right, rfl, hleft⟩ := List.eq_append_cons_of_mem hmem
    rw [splitOnce_append hleft] at hnone
    exact absurd hnone (by simp)
  · intro hnot
    cases hsplit : splitOnce sep t with
    | none => rfl
    | some parts =>
      obtain ⟨left, right⟩ := parts
      obtain ⟨rfl, -⟩ := splitOnce_eq_some_iff.1 hsplit
      exact absurd (List.mem_append_right left List.mem_cons_self) hnot

import Mathlib.Data.List.DropRight
import WasmHost.Lib.SepPath

/-!
# The names along a path

A path may be spelled with more separators than it needs and with segments that stand for nothing.
What counts are the segments that name something.

* `names_append_sep`: the names along a joined path.
* `names_dropWhile`, `names_rdropWhile`: separators around a path do not matter.
-/

namespace SepPath

variable {α : Type} [BEq α] [LawfulBEq α] (sep : α) (named : List α → Bool)

/-- The segments of a path that name something. -/
def names (k : List α) : List (List α) := (k.splitOn sep).filter named

variable {sep named}

omit [LawfulBEq α] in
theorem mem_names {k s : List α} : s ∈ names sep named k ↔ s ∈ k.splitOn sep ∧ named s = true :=
  List.mem_filter

theorem not_mem_of_mem_names {k s : List α} (h : s ∈ names sep named k) : sep ∉ s :=
  not_mem_of_mem_splitOn (mem_names.1 h).1

theorem names_append_sep (a b : List α) :
    names sep named (a ++ sep :: b) = names sep named a ++ names sep named b := by
  rw [names, splitOn_append_sep, List.filter_append]
  rfl

section

variable (hnil : named [] = false)

include hnil

omit [LawfulBEq α] in
theorem names_nil : names sep named [] = [] := by
  simp [names, List.splitOn_nil, hnil]

theorem names_cons_sep (k : List α) : names sep named (sep :: k) = names sep named k := by
  have h : names sep named ([] ++ sep :: k) = names sep named [] ++ names sep named k :=
    names_append_sep [] k
  rwa [names_nil hnil] at h

theorem names_concat_sep (k : List α) : names sep named (k ++ [sep]) = names sep named k := by
  rw [names_append_sep, names_nil hnil, List.append_nil]

variable {p : α → Bool} (hp : ∀ c, p c = true → c = sep)

include hp

theorem names_dropWhile (k : List α) : names sep named (k.dropWhile p) = names sep named k := by
  induction k with
  | nil => rfl
  | cons c k ih =>
    rw [List.dropWhile_cons]
    split
    next hc =>
      obtain rfl := hp c hc
      rw [ih, names_cons_sep hnil]
    · rfl

theorem names_rdropWhile (k : List α) : names sep named (k.rdropWhile p) = names sep named k := by
  induction k using List.reverseRecOn with
  | nil => rfl
  | append_singleton k c ih =>
    rw [List.rdropWhile_concat]
    split
    next hc =>
      obtain rfl := hp c hc
      rw [ih, names_concat_sep hnil]
    · rfl

end

/-- The names along two paths that are joined unless one of them is empty. -/
theorem names_intercalate_filter [DecidableEq α] (hnil : named [] = false) (a b : List α) :
    names sep named ([sep].intercalate ([a, b].filter (· ≠ []))) =
      names sep named a ++ names sep named b := by
  by_cases ha : a = [] <;> by_cases hb : b = []
  · simp [ha, hb, names_nil hnil]
  · simp [ha, hb, names_nil hnil]
  · simp [ha, hb, names_nil hnil]
  · have hjoin : [sep].intercalate ([a, b].filter (· ≠ [])) = a ++ sep :: b := by
      simp [ha, hb, List.intercalate_cons_cons]
    rw [hjoin, names_append_sep]

end SepPath

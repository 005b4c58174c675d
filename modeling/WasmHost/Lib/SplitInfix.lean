import Mathlib.Data.List.Infix
import Mathlib.Tactic.Common

/-!
# Cutting a list at its first infix

`splitInfix` cuts a list at the first place where another list stands in it, and drops that one.
`splitInfix_eq_some_iff` and `splitInfix_eq_none_iff` say what it finds.
-/

variable {α : Type} {n : ℕ}

/-- The list stands there, and nowhere before. -/
def FirstInfix (needle hay before after : List α) : Prop :=
  hay = before ++ (needle ++ after) ∧
    ∀ start rest, hay = start ++ (needle ++ rest) → before.length ≤ start.length

theorem FirstInfix.eq {needle hay before after before' after' : List α}
    (h : FirstInfix needle hay before after) (h' : FirstInfix needle hay before' after') :
    before = before' ∧ after = after' := by
  have hlength : before.length = before'.length :=
    le_antisymm (h.2 _ _ h'.1) (h'.2 _ _ h.1)
  obtain ⟨hbefore, hrest⟩ := List.append_inj (h.1.symm.trans h'.1) hlength
  exact ⟨hbefore, List.append_cancel_left hrest⟩

variable [DecidableEq α]

/-- What is before and what is behind the first `needle`. -/
def splitInfix (needle : List α) : List α → Option (List α × List α)
  | [] => if needle = [] then some ([], []) else none
  | x :: hay =>
      if needle <+: x :: hay then some ([], (x :: hay).drop needle.length)
      else (splitInfix needle hay).map fun (before, after) => (x :: before, after)

theorem splitInfix_of_isPrefix {needle hay : List α} (h : needle <+: hay) :
    splitInfix needle hay = some ([], hay.drop needle.length) := by
  cases hay with
  | nil =>
    obtain rfl := List.prefix_nil.1 h
    rfl
  | cons => rw [splitInfix, if_pos h]

theorem splitInfix_cons {needle hay : List α} {x : α} (h : ¬needle <+: x :: hay) :
    splitInfix needle (x :: hay) =
      (splitInfix needle hay).map fun (before, after) => (x :: before, after) := by
  rw [splitInfix, if_neg h]

theorem firstInfix_of_splitInfix {needle hay before after : List α}
    (h : splitInfix needle hay = some (before, after)) : FirstInfix needle hay before after := by
  induction hay generalizing before after with
  | nil =>
    rw [splitInfix] at h
    split_ifs at h with hneedle
    obtain ⟨rfl, rfl⟩ : [] = before ∧ [] = after := by simpa using h
    exact ⟨by simp [hneedle], fun _ _ _ => Nat.zero_le _⟩
  | cons x hay ih =>
    by_cases hstart : needle <+: x :: hay
    · rw [splitInfix_of_isPrefix hstart] at h
      obtain ⟨rfl, rfl⟩ : [] = before ∧ (x :: hay).drop needle.length = after := by simpa using h
      obtain ⟨rest, hrest⟩ := hstart
      refine ⟨?_, fun _ _ _ => Nat.zero_le _⟩
      rw [← hrest, List.drop_left, List.nil_append]
    · rw [splitInfix_cons hstart] at h
      obtain ⟨⟨left, right⟩, hsplit, hpair⟩ := Option.map_eq_some_iff.1 h
      obtain ⟨rfl, rfl⟩ : x :: left = before ∧ right = after := by simpa using hpair
      obtain ⟨hhay, hfirst⟩ := ih hsplit
      refine ⟨by rw [hhay, List.cons_append], fun start rest hcut => ?_⟩
      cases start with
      | nil => exact absurd ⟨rest, hcut.symm⟩ hstart
      | cons y start =>
        rw [List.cons_append, List.cons.injEq] at hcut
        exact Nat.succ_le_succ (hfirst start rest hcut.2)

theorem splitInfix_eq_none_iff {needle hay : List α} :
    splitInfix needle hay = none ↔ ¬needle <:+: hay := by
  induction hay with
  | nil =>
    rw [splitInfix, List.infix_nil]
    split_ifs with hneedle <;> simp [hneedle]
  | cons x hay ih =>
    rw [List.infix_cons_iff, not_or]
    by_cases hstart : needle <+: x :: hay
    · simp [splitInfix_of_isPrefix hstart, hstart]
    · rw [splitInfix_cons hstart, Option.map_eq_none_iff, ih]
      exact ⟨fun h => ⟨hstart, h⟩, And.right⟩

theorem splitInfix_eq_some_iff {needle hay before after : List α} :
    splitInfix needle hay = some (before, after) ↔ FirstInfix needle hay before after := by
  refine ⟨firstInfix_of_splitInfix, fun h => ?_⟩
  cases hsplit : splitInfix needle hay with
  | none =>
    have hinfix : needle <:+: hay := ⟨before, after, by rw [h.1, List.append_assoc]⟩
    exact absurd hinfix (splitInfix_eq_none_iff.1 hsplit)
  | some =>
    obtain ⟨hbefore, hafter⟩ := h.eq (firstInfix_of_splitInfix hsplit)
    rw [hbefore, hafter]

/-- A mark whose first item is not in front of it is found. -/
theorem splitInfix_of_not_mem {x : α} {line : List α} (h : x ∉ line) (needle rest : List α) :
    splitInfix (x :: needle) (line ++ (x :: needle ++ rest)) = some (line, rest) := by
  induction line with
  | nil =>
    rw [List.nil_append, splitInfix_of_isPrefix (List.prefix_append _ _), List.drop_left]
  | cons y line ih =>
    obtain ⟨hne, hline⟩ := not_or.1 (mt List.mem_cons.2 h)
    have hstart : ¬x :: needle <+: y :: (line ++ (x :: needle ++ rest)) := fun hpre =>
      hne (List.cons_prefix_cons.1 hpre).1
    rw [List.cons_append, splitInfix_cons hstart, ih hline]
    rfl

/-! ### Cutting at every infix -/

/-- What follows the first infix is shorter. -/
theorem length_lt_of_splitInfix {needle hay before after : List α} (hne : needle ≠ [])
    (h : splitInfix needle hay = some (before, after)) : after.length < hay.length := by
  have hpos := List.length_pos_of_ne_nil hne
  obtain ⟨hhay, -⟩ := firstInfix_of_splitInfix h
  rw [hhay, List.length_append, List.length_append]
  omega

/-- The parts before each infix, and what is left. -/
def splitAll (needle : List α) (hne : needle ≠ []) (hay : List α) : List (List α) × List α :=
  match h : splitInfix needle hay with
  | none => ([], hay)
  | some (before, after) =>
    have := length_lt_of_splitInfix hne h
    (before :: (splitAll needle hne after).1, (splitAll needle hne after).2)
termination_by hay.length

variable {needle hay before after : List α} {hne : needle ≠ []}

theorem splitAll_of_none (h : splitInfix needle hay = none) :
    splitAll needle hne hay = ([], hay) := by
  rw [splitAll]
  split
  · rfl
  · next heq =>
    rw [h] at heq
    cases heq

theorem splitAll_of_some (h : splitInfix needle hay = some (before, after)) :
    splitAll needle hne hay =
      (before :: (splitAll needle hne after).1, (splitAll needle hne after).2) := by
  rw [splitAll]
  split
  · next heq =>
    rw [h] at heq
    cases heq
  · next before' after' heq =>
    obtain ⟨rfl, rfl⟩ : before = before' ∧ after = after' := by
      rw [h] at heq
      simpa using heq
    rfl

/-- A first infix stays one when something is added at the end. -/
theorem splitInfix_append (h : splitInfix needle hay = some (before, after)) (more : List α) :
    splitInfix needle (hay ++ more) = some (before, after ++ more) := by
  obtain ⟨hhay, hfirst⟩ := firstInfix_of_splitInfix h
  refine splitInfix_eq_some_iff.2 ⟨by simp [hhay], fun start rest hcut => ?_⟩
  by_contra hlt
  rw [not_le] at hlt
  -- the earlier infix would lie within the part that is there already
  have hpre : start ++ needle <+: hay := by
    have hstart : start ++ needle <+: hay ++ more := ⟨rest, by rw [hcut, List.append_assoc]⟩
    refine List.prefix_of_prefix_length_le hstart (List.prefix_append hay more) ?_
    rw [hhay, List.length_append, List.length_append, List.length_append]
    omega
  obtain ⟨tail, htail⟩ := hpre
  have hle := hfirst start tail (by rw [← htail, List.append_assoc])
  omega

theorem splitInfix_eq_none_of_append {more : List α} (h : splitInfix needle (hay ++ more) = none) :
    splitInfix needle hay = none := by
  cases hsplit : splitInfix needle hay with
  | none => rfl
  | some => cases (splitInfix_append hsplit more).symm.trans h

/-- What is left is cut together with what comes next. -/
theorem splitAll_append (hay more : List α) :
    splitAll needle hne (hay ++ more) =
      ((splitAll needle hne hay).1 ++ (splitAll needle hne ((splitAll needle hne hay).2 ++ more)).1,
        (splitAll needle hne ((splitAll needle hne hay).2 ++ more)).2) := by
  induction hlen : hay.length using Nat.strong_induction_on generalizing hay with
  | _ n ih =>
    cases h : splitInfix needle hay with
    | none =>
      rw [splitAll_of_none h]
      rfl
    | some parts =>
      obtain ⟨before, after⟩ := parts
      have hlt := length_lt_of_splitInfix hne h
      rw [splitAll_of_some h, splitAll_of_some (splitInfix_append h more),
        ih after.length (hlen ▸ hlt) after rfl]
      rfl

/-- A part that ends before the infix does has none. -/
theorem splitInfix_take_of_lt (h : splitInfix needle hay = some (before, after))
    (hn : n < before.length + needle.length) : splitInfix needle (hay.take n) = none := by
  cases hsplit : splitInfix needle (hay.take n) with
  | none => rfl
  | some parts =>
    obtain ⟨before', after'⟩ := parts
    have happend := splitInfix_append hsplit (hay.drop n)
    rw [List.take_append_drop, h] at happend
    obtain ⟨rfl, -⟩ := Prod.mk.inj (Option.some.inj happend)
    obtain ⟨hcut, -⟩ := firstInfix_of_splitInfix hsplit
    have hlength := congrArg List.length hcut
    rw [List.length_take, List.length_append, List.length_append] at hlength
    omega

/-- A part that goes on to the end of the infix has it. -/
theorem splitInfix_take_of_le (h : splitInfix needle hay = some (before, after))
    (hn : before.length + needle.length ≤ n) :
    ∃ rest, splitInfix needle (hay.take n) = some (before, rest) := by
  obtain ⟨hhay, hfirst⟩ := firstInfix_of_splitInfix h
  have hcut : hay.take n = before ++ (needle ++ after.take (n - (before ++ needle).length)) := by
    rw [hhay, ← List.append_assoc, List.take_append, List.take_of_length_le, List.append_assoc]
    rwa [List.length_append]
  refine ⟨_, splitInfix_eq_some_iff.2 ⟨hcut, fun start rest hstart => ?_⟩⟩
  refine hfirst start (rest ++ hay.drop n) ?_
  rw [← List.append_assoc needle, ← List.append_assoc start, ← hstart, List.take_append_drop]

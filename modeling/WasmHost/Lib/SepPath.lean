import Mathlib.Data.List.Infix
import Mathlib.Tactic.Common

/-!
# Separator-joined keys

Flat stores name the entries of a tree by keys in which a separator joins the names along the
path. This module is the theory of such keys over an arbitrary alphabet: which key lies below
which (`Below`), the key of the enclosing directory (`parent?`), moving a key from one directory
to another (`rebase`), and predicates on the segments of a key (`AllSegments`).

Nothing here asks that keys have non-empty segments; where that matters it is a hypothesis on
`AllSegments`.
-/

namespace SepPath

open List

variable {α : Type} (sep : α)

/-- `k` lies strictly below the directory `p`: `k` starts with `p` and a separator. -/
def Below (p k : List α) : Prop := p ++ [sep] <+: k

/-- `k` is `p` or lies below it. -/
def AtOrBelow (p k : List α) : Prop := k = p ∨ Below sep p k

/-- Paths can be compared. -/
instance [DecidableEq α] (p k : List α) : Decidable (Below sep p k) :=
  inferInstanceAs (Decidable (p ++ [sep] <+: k))

/-- So they can where they may be equal. -/
instance [DecidableEq α] (p k : List α) : Decidable (AtOrBelow sep p k) :=
  inferInstanceAs (Decidable (_ ∨ _))

variable {sep} {p q k : List α}

theorem below_iff : Below sep p k ↔ ∃ r, k = p ++ sep :: r := by
  constructor
  all_goals
    rintro ⟨r, rfl⟩
    exact ⟨r, by simp⟩

theorem below_append (p r : List α) : Below sep p (p ++ sep :: r) :=
  below_iff.2 ⟨r, rfl⟩

theorem atOrBelow_self (p : List α) : AtOrBelow sep p p := .inl rfl

theorem Below.atOrBelow (h : Below sep p k) : AtOrBelow sep p k := .inr h

theorem below_append_right_iff (pre : List α) :
    Below sep (pre ++ p) (pre ++ k) ↔ Below sep p k := by
  unfold Below
  rw [append_assoc, prefix_append_right_inj]

theorem atOrBelow_append_right_iff (pre : List α) :
    AtOrBelow sep (pre ++ p) (pre ++ k) ↔ AtOrBelow sep p k := by
  unfold AtOrBelow
  rw [below_append_right_iff, append_cancel_left_eq]

theorem AtOrBelow.isPrefix (h : AtOrBelow sep p k) : p <+: k := by
  rcases h with rfl | h
  · exact prefix_rfl
  · exact (prefix_append p [sep]).trans h

theorem Below.length_lt (h : Below sep p k) : p.length < k.length := by
  have := h.length_le
  simp only [length_append, length_cons, length_nil] at this
  omega

theorem Below.ne (h : Below sep p k) : k ≠ p := by
  rintro rfl
  exact absurd h.length_lt (Nat.lt_irrefl _)

theorem not_below_self (p : List α) : ¬Below sep p p := fun h => h.ne rfl

theorem Below.trans (hpq : Below sep p q) (hqk : Below sep q k) : Below sep p k :=
  List.IsPrefix.trans hpq (List.IsPrefix.trans (prefix_append q [sep]) hqk)

theorem Below.trans_atOrBelow (hpq : Below sep p q) (hqk : AtOrBelow sep q k) :
    Below sep p k := by
  rcases hqk with rfl | hqk
  · exact hpq
  · exact hpq.trans hqk

theorem AtOrBelow.trans_below (hpq : AtOrBelow sep p q) (hqk : Below sep q k) :
    Below sep p k := by
  rcases hpq with rfl | hpq
  · exact hqk
  · exact hpq.trans hqk

/-- Two directories with a common entry below them are nested. -/
theorem Below.comparable (hp : Below sep p k) (hq : Below sep q k) :
    p = q ∨ Below sep p q ∨ Below sep q p := by
  rcases Nat.lt_trichotomy p.length q.length with hlt | heq | hgt
  · refine .inr (.inl (prefix_of_prefix_length_le hp
      ((prefix_append q [sep]).trans hq) ?_))
    simpa [Nat.succ_le_iff] using hlt
  · left
    exact (prefix_of_prefix_length_le ((prefix_append p [sep]).trans hp)
      ((prefix_append q [sep]).trans hq) heq.le).eq_of_length heq
  · refine .inr (.inr (prefix_of_prefix_length_le hq
      ((prefix_append p [sep]).trans hp) ?_))
    simpa [Nat.succ_le_iff] using hgt

theorem AtOrBelow.comparable (hp : AtOrBelow sep p k) (hq : AtOrBelow sep q k) :
    AtOrBelow sep p q ∨ AtOrBelow sep q p := by
  rcases hp with rfl | hp
  · exact .inr hq
  rcases hq with rfl | hq
  · exact .inl hp.atOrBelow
  rcases hp.comparable hq with rfl | h | h
  · exact .inl (atOrBelow_self _)
  · exact .inl h.atOrBelow
  · exact .inr h.atOrBelow

section Parent

variable [DecidableEq α]

variable (sep) in
/-- The part of a key before its last separator, if it has one. -/
def parent? : List α → Option (List α)
  | [] => none
  | c :: cs =>
      match parent? cs with
      | some p => some (c :: p)
      | none => if c = sep then some [] else none

theorem parent?_eq_none_iff : parent? sep k = none ↔ sep ∉ k := by
  induction k with
  | nil => simp [parent?]
  | cons c cs ih =>
    cases hcs : parent? sep cs with
    | some =>
      have hmem : sep ∈ cs := by
        by_contra hno
        rw [ih.2 hno] at hcs
        cases hcs
      simp [parent?, hcs, hmem]
    | none =>
      by_cases hc : c = sep
      · simp [parent?, hcs, hc]
      · simp [parent?, hcs, hc, ih.1 hcs, Ne.symm hc]

/-- The enclosing directory is what stands before the last separator. -/
theorem parent?_eq_some_iff :
    parent? sep k = some p ↔ ∃ n, k = p ++ sep :: n ∧ sep ∉ n := by
  induction k generalizing p with
  | nil => simp [parent?]
  | cons c cs ih =>
    cases hcs : parent? sep cs with
    | some =>
      simp only [parent?, hcs, Option.some.injEq]
      constructor
      · rintro rfl
        obtain ⟨n, rfl, hn⟩ := ih.1 hcs
        exact ⟨n, rfl, hn⟩
      · rintro ⟨n, hk, hn⟩
        cases p with
        | nil =>
          have : cs = n := (List.cons.inj hk).2
          subst this
          rw [parent?_eq_none_iff.2 hn] at hcs
          cases hcs
        | cons =>
          obtain ⟨rfl, hcs'⟩ := List.cons.inj hk
          rw [ih.2 ⟨n, hcs', hn⟩] at hcs
          rw [Option.some.inj hcs]
    | none =>
      have hno := parent?_eq_none_iff.1 hcs
      by_cases hc : c = sep
      · simp only [parent?, hcs, hc, if_true, Option.some.injEq]
        constructor
        · rintro rfl
          exact ⟨cs, rfl, hno⟩
        · rintro ⟨n, hk, hn⟩
          cases p with
          | nil => rfl
          | cons d p =>
            have hcs' : cs = p ++ sep :: n := (List.cons.inj hk).2
            exact absurd (hcs' ▸ by simp) hno
      · simp only [parent?, hcs, hc, if_false, false_iff, reduceCtorEq]
        rintro ⟨n, hk, hn⟩
        cases p with
        | nil => exact hc (List.cons.inj hk).1
        | cons d p =>
          have hcs' : cs = p ++ sep :: n := (List.cons.inj hk).2
          exact absurd (hcs' ▸ by simp) hno

theorem parent?_append (p : List α) {n : List α} (hn : sep ∉ n) :
    parent? sep (p ++ sep :: n) = some p :=
  parent?_eq_some_iff.2 ⟨n, rfl, hn⟩

theorem below_of_parent? (h : parent? sep k = some p) : Below sep p k := by
  obtain ⟨n, rfl, -⟩ := parent?_eq_some_iff.1 h
  exact below_append p n

/-- A key below `p` has an enclosing directory, and that is `p` or lies below it. -/
theorem exists_parent?_of_below (h : Below sep p k) :
    ∃ q, parent? sep k = some q ∧ AtOrBelow sep p q := by
  obtain ⟨r, rfl⟩ := below_iff.1 h
  cases hr : parent? sep r with
  | none =>
    exact ⟨p, parent?_append p (parent?_eq_none_iff.1 hr), atOrBelow_self p⟩
  | some q =>
    obtain ⟨n, rfl, hn⟩ := parent?_eq_some_iff.1 hr
    refine ⟨p ++ sep :: q, ?_, (below_append p q).atOrBelow⟩
    have : p ++ sep :: (q ++ sep :: n) = (p ++ sep :: q) ++ sep :: n := by simp
    rw [this]
    exact parent?_append _ hn

end Parent

section Rebase

variable [DecidableEq α]

/-- Replace the leading `src` of a key by `tgt`. -/
def rebase (src tgt k : List α) : List α :=
  if k = src then tgt else tgt ++ k.drop src.length

variable {src tgt : List α}

@[simp]
theorem rebase_self (src tgt : List α) : rebase src tgt src = tgt := by
  simp [rebase]

@[simp]
theorem rebase_append (src tgt r : List α) :
    rebase src tgt (src ++ sep :: r) = tgt ++ sep :: r := by
  simp [rebase]

theorem rebase_below (h : Below sep src k) : Below sep tgt (rebase src tgt k) := by
  obtain ⟨r, rfl⟩ := below_iff.1 h
  rw [rebase_append]
  exact below_append tgt r

theorem rebase_atOrBelow (tgt : List α) (h : AtOrBelow sep src k) :
    AtOrBelow sep tgt (rebase src tgt k) := by
  rcases h with rfl | h
  · rw [rebase_self]
    exact atOrBelow_self tgt
  · exact (rebase_below h).atOrBelow

/-- Moving a subtree back undoes the move. -/
theorem rebase_rebase (tgt : List α) (h : AtOrBelow sep src k) :
    rebase tgt src (rebase src tgt k) = k := by
  rcases h with rfl | h
  · simp
  · obtain ⟨r, rfl⟩ := below_iff.1 h
    simp

theorem rebase_inj {k' : List α} (h : AtOrBelow sep src k) (h' : AtOrBelow sep src k')
    (heq : rebase src tgt k = rebase src tgt k') : k = k' := by
  rw [← rebase_rebase tgt h, heq, rebase_rebase tgt h']

/-- Moving a subtree keeps the order of its keys. -/
theorem rebase_below_rebase_iff {k' : List α} (h : AtOrBelow sep src k)
    (h' : AtOrBelow sep src k') :
    Below sep (rebase src tgt k) (rebase src tgt k') ↔ Below sep k k' := by
  have move : ∀ {src : List α} (tgt : List α) {k k' : List α}, AtOrBelow sep src k →
      Below sep k k' → Below sep (rebase src tgt k) (rebase src tgt k') := by
    intro src tgt k k' h hk
    rcases h with rfl | h
    · rw [rebase_self]
      exact rebase_below hk
    · obtain ⟨r, rfl⟩ := below_iff.1 h
      obtain ⟨r', rfl⟩ := below_iff.1 hk
      rw [append_assoc, cons_append, rebase_append, rebase_append]
      exact below_iff.2 ⟨r', by simp⟩
  constructor
  · intro hlt
    have := move src (rebase_atOrBelow tgt h) hlt
    rwa [rebase_rebase tgt h, rebase_rebase tgt h'] at this
  · exact move tgt h

variable (sep) in
/-- Where a key goes when the directory `src` is moved to `tgt`. -/
def move (src tgt k : List α) : List α :=
  if AtOrBelow sep src k then rebase src tgt k else k

theorem move_of_atOrBelow (tgt : List α) (h : AtOrBelow sep src k) :
    move sep src tgt k = rebase src tgt k := by
  simp [move, h]

theorem move_of_not_atOrBelow (tgt : List α) (h : ¬AtOrBelow sep src k) :
    move sep src tgt k = k := by
  simp [move, h]

/-- A moved directory meets no other key when nothing else is at or below its new place. -/
theorem move_inj {k' : List α} (hk : AtOrBelow sep src k ∨ ¬AtOrBelow sep tgt k)
    (hk' : AtOrBelow sep src k' ∨ ¬AtOrBelow sep tgt k')
    (heq : move sep src tgt k = move sep src tgt k') : k = k' := by
  by_cases h : AtOrBelow sep src k <;> by_cases h' : AtOrBelow sep src k'
  · rw [move_of_atOrBelow tgt h, move_of_atOrBelow tgt h'] at heq
    exact rebase_inj h h' heq
  · rw [move_of_atOrBelow tgt h, move_of_not_atOrBelow tgt h'] at heq
    exact absurd (heq ▸ rebase_atOrBelow tgt h) (hk'.resolve_left h')
  · rw [move_of_not_atOrBelow tgt h, move_of_atOrBelow tgt h'] at heq
    exact absurd (heq ▸ rebase_atOrBelow tgt h') (hk.resolve_left h)
  · rwa [move_of_not_atOrBelow tgt h, move_of_not_atOrBelow tgt h'] at heq

end Rebase

section Segments

variable [BEq α] [LawfulBEq α]

variable (sep) in
/-- Every segment of the key satisfies `P`. -/
def AllSegments (P : List α → Prop) (k : List α) : Prop := ∀ s ∈ k.splitOn sep, P s

/-- Segments of a nested key. -/
theorem splitOn_append_sep (a b : List α) :
    (a ++ sep :: b).splitOn sep = a.splitOn sep ++ b.splitOn sep := by
  simp only [List.splitOn]
  exact splitOnP_append_cons a b (by simp)

variable {P : List α → Prop}

theorem allSegments_append {a b : List α} :
    AllSegments sep P (a ++ sep :: b) ↔ AllSegments sep P a ∧ AllSegments sep P b := by
  simp only [AllSegments, splitOn_append_sep, mem_append]
  constructor
  · intro h
    exact ⟨fun s hs => h s (.inl hs), fun s hs => h s (.inr hs)⟩
  · rintro ⟨ha, hb⟩ s (hs | hs)
    · exact ha s hs
    · exact hb s hs

theorem splitOn_of_not_mem {a : List α} (h : sep ∉ a) : a.splitOn sep = [a] := by
  simp only [List.splitOn]
  refine splitOnP_eq_singleton fun x hx => ?_
  have hne : x ≠ sep := by
    rintro rfl
    exact h hx
  simpa using hne

/-- The first segment is the only name a key lies at or below. -/
theorem exists_splitOn_eq_cons (k : List α) :
    ∃ first rest, k.splitOn sep = first :: rest ∧
      (∀ name, sep ∉ name ∧ AtOrBelow sep name k ↔ name = first) ∧
      ∀ name, sep ∉ name ∧ Below sep name k ↔ name = first ∧ rest ≠ [] := by
  by_cases hk : sep ∈ k
  · obtain ⟨first, r, rfl, hfirst⟩ := eq_append_cons_of_mem hk
    have hsplit : (first ++ sep :: r).splitOn sep = first :: r.splitOn sep := by
      rw [splitOn_append_sep, splitOn_of_not_mem hfirst, singleton_append]
    have honly : ∀ name, sep ∉ name ∧ Below sep name (first ++ sep :: r) ↔ name = first := by
      intro name
      constructor
      · rintro ⟨hname, hbelow⟩
        obtain ⟨r', heq⟩ := below_iff.1 hbelow
        rw [heq, splitOn_append_sep, splitOn_of_not_mem hname] at hsplit
        exact (List.cons.inj hsplit).1
      · rintro rfl
        exact ⟨hfirst, below_append _ _⟩
    refine ⟨first, r.splitOn sep, hsplit, fun name => ?_, fun name => ?_⟩
    · constructor
      · rintro ⟨hname, rfl | hbelow⟩
        · exact absurd hk hname
        · exact (honly name).1 ⟨hname, hbelow⟩
      · intro h
        exact ((honly name).2 h).imp_right Below.atOrBelow
    · rw [honly name, and_iff_left]
      simp only [List.splitOn]
      exact splitOnP_ne_nil _ _
  · have hno : ∀ name, ¬Below sep name k := fun name hbelow => by
      obtain ⟨r, rfl⟩ := below_iff.1 hbelow
      exact hk (by simp)
    refine ⟨k, [], splitOn_of_not_mem hk, fun name => ?_, fun name => ?_⟩
    · constructor
      · rintro ⟨-, h | hbelow⟩
        · exact h.symm
        · exact absurd hbelow (hno name)
      · rintro rfl
        exact ⟨hk, atOrBelow_self _⟩
    · simp [hno name]

theorem allSegments_of_not_mem {a : List α} (h : sep ∉ a) : AllSegments sep P a ↔ P a := by
  simp [AllSegments, splitOn_of_not_mem h]

/-- The segments of a joined key are the joined segments. -/
theorem splitOn_join {ss : List (List α)} (hne : ss ≠ []) (h : ∀ s ∈ ss, sep ∉ s) :
    (List.intercalate [sep] ss).splitOn sep = ss :=
  splitOn_intercalate sep h hne

/-- Segments do not contain the separator. -/
theorem not_mem_of_mem_splitOn {k s : List α} (h : s ∈ k.splitOn sep) : sep ∉ s := by
  induction k generalizing s with
  | nil =>
    simp only [splitOn_nil, mem_singleton] at h
    simp [h]
  | cons c cs ih =>
    simp only [List.splitOn] at h ih
    rw [splitOnP_cons_eq_if_modifyHead] at h
    split at h
    next hc =>
      rcases mem_cons.1 h with rfl | h
      · simp
      · exact ih h
    next hc =>
      cases hsp : cs.splitOnP (· == sep) with
      | nil => exact absurd hsp (splitOnP_ne_nil _ _)
      | cons d ds =>
        rw [hsp, modifyHead_cons] at h
        rcases mem_cons.1 h with rfl | h
        · have hd : sep ∉ d := ih (hsp ▸ mem_cons_self)
          have hcs : ¬sep = c := fun hcs => hc (by simp [hcs])
          simp [hcs, hd]
        · exact ih (hsp ▸ mem_cons_of_mem _ h)

/-- A key without separators in the way consists of the characters of its segments. -/
theorem mem_iff_exists_mem_splitOn {k : List α} {c : α} (hc : c ≠ sep) :
    c ∈ k ↔ ∃ s ∈ k.splitOn sep, c ∈ s := by
  induction k with
  | nil => simp [splitOn_nil]
  | cons d cs ih =>
    simp only [List.splitOn] at ih ⊢
    rw [splitOnP_cons_eq_if_modifyHead]
    split
    next hd =>
      have hdc : c ≠ d := fun h => hc (h.trans (by simpa using hd))
      simp [ih, hdc]
    next hd =>
      obtain ⟨t, ts, hts⟩ := exists_cons_of_ne_nil (splitOnP_ne_nil (· == sep) cs)
      rw [hts] at ih ⊢
      simp [ih, or_assoc]

variable [DecidableEq α]

theorem AllSegments.rebase {src tgt k : List α} (hk : AllSegments sep P k)
    (htgt : AllSegments sep P tgt) (h : AtOrBelow sep src k) :
    AllSegments sep P (rebase src tgt k) := by
  rcases h with rfl | h
  · rwa [rebase_self]
  · obtain ⟨r, rfl⟩ := below_iff.1 h
    rw [rebase_append]
    exact allSegments_append.2 ⟨htgt, (allSegments_append.1 hk).2⟩

end Segments

end SepPath

import Mathlib.Algebra.Order.Group.Nat
import Mathlib.Data.List.DropRight
import WasmHost.Lib.SepPath

/-!
# Lexical normal forms of paths

A path text names a place by the segments between its separators. Read from left to right, an
empty segment and `.` stay, `..` goes to the parent and every other segment to a child. Without a
file system to ask, the place is known up to what is above the start: a `LexicalPath` counts the
parents taken above the start and lists the names below that.

`LexicalPath.walk_eq_join` splits a walk at any point, and `LexicalPath.within_join_iff` says when
a relative path leads back to or below the place it starts from.
-/

variable {α : Type}

/-- A place: from the root or from the start, up `ups` times and then down along `names`. Above
the root is the root. -/
@[ext]
structure LexicalPath (α : Type) where
  absolute : Bool
  ups : ℕ
  names : List (List α)
  ups_eq_zero : absolute = true → ups = 0

namespace LexicalPath

open List

/-- The start itself. -/
def start : LexicalPath α := ⟨false, 0, [], by simp⟩

def root : LexicalPath α := ⟨true, 0, [], fun _ => rfl⟩

/-- The path of a name below. -/
def child (p : LexicalPath α) (name : List α) : LexicalPath α :=
  { p with names := p.names ++ [name] }

/-- The path above. -/
def parent (p : LexicalPath α) : LexicalPath α where
  absolute := p.absolute
  ups := if p.names = [] ∧ p.absolute = false then p.ups + 1 else p.ups
  names := p.names.dropLast
  ups_eq_zero h := by simp [h, p.ups_eq_zero h]

@[simp]
theorem parent_absolute (p : LexicalPath α) : p.parent.absolute = p.absolute := rfl

@[simp]
theorem parent_names (p : LexicalPath α) : p.parent.names = p.names.dropLast := rfl

theorem parent_ups (p : LexicalPath α) : p.parent.ups =
    if p.names = [] ∧ p.absolute = false then p.ups + 1 else p.ups := rfl

/-- The parent, `n` times. -/
def climb (p : LexicalPath α) (n : ℕ) : LexicalPath α := parent^[n] p

/-- Where the relative path `r` leads from `p`. -/
def join (p r : LexicalPath α) : LexicalPath α :=
  { p.climb r.ups with names := (p.climb r.ups).names ++ r.names }

/-- `p` is `base` or lies below it. -/
def Within (base p : LexicalPath α) : Prop :=
  p.absolute = base.absolute ∧ p.ups = base.ups ∧ base.names <+: p.names

/-- From `base` the relative path `r` climbs no further than it comes back by the same names. -/
def Returns (base r : LexicalPath α) : Prop :=
  (base.absolute = true ∨ r.ups ≤ base.names.length) ∧
    base.names.drop (base.names.length - r.ups) <+: r.names

/-- Paths can be compared. -/
instance [DecidableEq α] (base p : LexicalPath α) : Decidable (base.Within p) :=
  inferInstanceAs (Decidable (_ ∧ _ ∧ _))

/-- A way back can be recognised. -/
instance [DecidableEq α] (base r : LexicalPath α) : Decidable (base.Returns r) :=
  inferInstanceAs (Decidable (_ ∧ _))

theorem climb_succ (p : LexicalPath α) (n : ℕ) : p.climb (n + 1) = (p.climb n).parent :=
  Function.iterate_succ_apply' parent n p

@[simp]
theorem climb_absolute (p : LexicalPath α) (n : ℕ) : (p.climb n).absolute = p.absolute := by
  induction n with
  | zero => rfl
  | succ n ih => rw [climb_succ, parent_absolute, ih]

theorem climb_names (p : LexicalPath α) (n : ℕ) :
    (p.climb n).names = p.names.take (p.names.length - n) := by
  induction n with
  | zero => simp [climb]
  | succ n ih =>
    rw [climb_succ, parent_names, ih, dropLast_eq_take, take_take, length_take]
    congr 1
    omega

theorem climb_ups (p : LexicalPath α) (n : ℕ) :
    (p.climb n).ups = if p.absolute = true then 0 else p.ups + (n - p.names.length) := by
  induction n with
  | zero =>
    split
    next h => exact p.ups_eq_zero h
    · simp [climb]
  | succ n ih =>
    have hnames : (p.climb n).names = [] ↔ p.names.length ≤ n := by
      rw [climb_names, take_eq_nil_iff, ← length_eq_zero_iff]
      omega
    rw [climb_succ, parent_ups, climb_absolute, ih]
    simp only [hnames]
    by_cases habs : p.absolute = true
    · simp [habs]
    · rw [if_neg habs, if_neg habs]
      simp only [Bool.not_eq_true] at habs
      simp only [habs, and_true]
      split <;> omega

@[simp]
theorem join_start (p : LexicalPath α) : p.join start = p := by
  simp [join, start, climb]

/-- A relative path leads back to its start or below it just when it returns by the names it
left. -/
theorem within_join_iff (base r : LexicalPath α) : base.Within (base.join r) ↔ base.Returns r := by
  have hsplit : base.names = base.names.take (base.names.length - r.ups) ++
      base.names.drop (base.names.length - r.ups) := (take_append_drop _ _).symm
  have hleading : base.names <+: (base.climb r.ups).names ++ r.names ↔
      base.names.drop (base.names.length - r.ups) <+: r.names := by
    rw [climb_names]
    nth_rewrite 1 [hsplit]
    exact prefix_append_right_inj _
  unfold Within Returns join
  rw [hleading, climb_absolute, climb_ups]
  by_cases habs : base.absolute = true
  · simp [habs, base.ups_eq_zero habs]
  · simp only [habs, Bool.false_eq_true, ↓reduceIte, true_and, false_or]
    constructor
    all_goals
      rintro ⟨hups, hback⟩
      exact ⟨by omega, hback⟩

/-- Nothing is left when nothing is climbed. -/
theorem returns_of_ups_eq_zero {base r : LexicalPath α} (h : r.ups = 0) : base.Returns r := by
  unfold Returns
  rw [h, Nat.sub_zero, drop_length]
  exact ⟨.inr (Nat.zero_le _), nil_prefix⟩

/-! ### Walking along segments -/

variable [DecidableEq α] (sep dot : α)

/-- One segment of a path. -/
def step (p : LexicalPath α) (segment : List α) : LexicalPath α :=
  if segment = [] ∨ segment = [dot] then p
  else if segment = [dot, dot] then p.parent
  else p.child segment

/-- Follows segments. -/
def walk (p : LexicalPath α) (segments : List (List α)) : LexicalPath α :=
  segments.foldl (step dot) p

/-- The place a path text names. -/
def normalForm (path : List α) : LexicalPath α :=
  walk dot (if path.head? = some sep then root else start) (path.splitOn sep)

theorem walk_append (p : LexicalPath α) (first second : List (List α)) :
    walk dot p (first ++ second) = walk dot (walk dot p first) second :=
  foldl_append

theorem walk_concat (p : LexicalPath α) (segments : List (List α)) (segment : List α) :
    walk dot p (segments ++ [segment]) = step dot (walk dot p segments) segment := by
  rw [walk_append]
  rfl

@[simp]
theorem step_absolute (p : LexicalPath α) (segment : List α) :
    (step dot p segment).absolute = p.absolute := by
  unfold step
  split
  · rfl
  · split <;> rfl

@[simp]
theorem walk_absolute (p : LexicalPath α) (segments : List (List α)) :
    (walk dot p segments).absolute = p.absolute := by
  induction segments using List.reverseRecOn with
  | nil => rfl
  | append_singleton segments segment ih => rw [walk_concat, step_absolute, ih]

/-- Only a parent segment climbs. -/
theorem walk_ups (p : LexicalPath α) {segments : List (List α)}
    (h : ∀ segment ∈ segments, segment ≠ [dot, dot]) : (walk dot p segments).ups = p.ups := by
  induction segments using List.reverseRecOn with
  | nil => rfl
  | append_singleton segments segment ih =>
    have hne : segment ≠ [dot, dot] := h segment (by simp)
    rw [walk_concat, step, if_neg hne]
    split <;> exact ih fun other hother => h other (mem_append_left _ hother)

/-- One more segment of the relative path is one more segment of the whole walk. -/
theorem step_join (p : LexicalPath α) {r : LexicalPath α} (hr : r.absolute = false)
    (segment : List α) : step dot (p.join r) segment = p.join (step dot r segment) := by
  unfold step
  split
  · rfl
  split
  · -- the parent takes back the last name, or climbs once more when there is none
    cases hnames : r.names with
    | nil =>
      have hparent : r.parent = ⟨false, r.ups + 1, [], by simp⟩ := by
        refine LexicalPath.ext hr ?_ ?_
        · simp [parent, hnames, hr]
        · simp [parent, hnames]
      rw [hparent]
      simp only [join, hnames, append_nil, climb_succ]
    | cons =>
      refine LexicalPath.ext ?_ ?_ ?_
      · simp [join, parent]
      · simp [join, parent, hnames]
      · simp [join, parent, hnames, dropLast_append_of_ne_nil]
  · simp [join, child]

/-- A walk from `p` is the walk from the start, joined to `p`. -/
theorem walk_eq_join (p : LexicalPath α) (segments : List (List α)) :
    walk dot p segments = p.join (walk dot start segments) := by
  induction segments using List.reverseRecOn with
  | nil => exact (join_start p).symm
  | append_singleton segments segment ih =>
    rw [walk_concat, walk_concat, ih, step_join dot p (walk_absolute dot start segments)]

/-- A relative text behind a separator is walked from where the text before it leads. -/
theorem normalForm_append_cons (path : List α) {relative : List α}
    (hpath : path ≠ []) (hrelative : relative.head? ≠ some sep) :
    normalForm sep dot (path ++ sep :: relative) =
      (normalForm sep dot path).join (normalForm sep dot relative) := by
  have hsplit : (path ++ sep :: relative).splitOn sep =
      path.splitOn sep ++ relative.splitOn sep := SepPath.splitOn_append_sep path relative
  have hhead : (path ++ sep :: relative).head? = path.head? := by
    cases path with
    | nil => exact absurd rfl hpath
    | cons => rfl
  have hrel : normalForm sep dot relative = walk dot start (relative.splitOn sep) := by
    rw [normalForm, if_neg hrelative]
  rw [normalForm, hhead, hsplit, walk_append, walk_eq_join, hrel, normalForm]

@[simp]
theorem normalForm_nil : normalForm sep dot ([] : List α) = start := by
  simp [normalForm, walk, step, splitOn_nil]

/-- A text read from the start is the text read from nowhere. -/
theorem join_normalForm_nil {relative : List α} (hrelative : relative.head? ≠ some sep) :
    (normalForm sep dot []).join (normalForm sep dot relative) = normalForm sep dot relative := by
  rw [normalForm_nil, normalForm, if_neg hrelative, ← walk_eq_join]

/-- A separator in front makes a text start at the root. -/
theorem normalForm_sep_cons {relative : List α} (hrelative : relative.head? ≠ some sep) :
    normalForm sep dot (sep :: relative) =
      (normalForm sep dot [sep]).join (normalForm sep dot relative) := by
  have hsplit : ∀ rest : List α, (sep :: rest).splitOn sep = [] :: rest.splitOn sep :=
    fun rest => by
    have h : ([] ++ sep :: rest).splitOn sep = [].splitOn sep ++ rest.splitOn sep :=
      SepPath.splitOn_append_sep [] rest
    simpa [splitOn_nil] using h
  have hroot : normalForm sep dot [sep] = root := by
    rw [normalForm, hsplit]
    simp [walk, step, splitOn_nil]
  rw [hroot, normalForm, hsplit, normalForm, if_neg hrelative, List.head?_cons, if_pos rfl]
  show walk dot (step dot root []) (relative.splitOn sep) = _
  rw [show step dot (root : LexicalPath α) [] = root by simp [step], walk_eq_join]

/-- A separator at the end of a text adds nothing. -/
theorem normalForm_concat_sep {path : List α} (hpath : path ≠ []) :
    normalForm sep dot (path ++ [sep]) = normalForm sep dot path := by
  rw [normalForm_append_cons sep dot path hpath (by simp)]
  rw [normalForm_nil, join_start]

end LexicalPath

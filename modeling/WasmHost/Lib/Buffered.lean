import WasmHost.Lib.SplitInfix

/-!
# Reading through a buffer

What a stream gives comes in parts. A reader takes at most so many items of a part at a time, and
keeps in a buffer what it does not use yet. The lemmas say what a reader finds in terms of all that
is still to come, so that it does not matter where the parts end.
-/

variable {α : Type} {size : ℕ}

/-- The next items, at most `size` of them. An empty part is passed over. -/
def readSome (size : ℕ) : List (List α) → Option (List α × List (List α))
  | [] => none
  | [] :: parts => readSome size parts
  | (x :: part) :: parts => some ((x :: part).take size, (x :: part).drop size :: parts)

theorem readSome_eq_none_iff {parts : List (List α)} :
    readSome size parts = none ↔ parts.flatten = [] := by
  induction parts with
  | nil => exact iff_of_true rfl rfl
  | cons part parts ih =>
    cases part with
    | nil => rw [readSome, ih, List.flatten_cons, List.nil_append]
    | cons => simp [readSome]

/-- Something is read, no more than asked for, and the rest is left. -/
theorem readSome_eq_some (hsize : 0 < size) {parts rest : List (List α)} {chunk : List α}
    (h : readSome size parts = some (chunk, rest)) :
    chunk ≠ [] ∧ chunk.length ≤ size ∧ parts.flatten = chunk ++ rest.flatten := by
  induction parts with
  | nil => cases h
  | cons part parts ih =>
    cases part with
    | nil => exact ih h
    | cons x part =>
      obtain ⟨rfl, rfl⟩ :
        (x :: part).take size = chunk ∧ (x :: part).drop size :: parts = rest := by
        simpa [readSome] using h
      refine ⟨?_, List.length_take_le _ _, ?_⟩
      · obtain ⟨n, rfl⟩ := Nat.exists_eq_add_one.2 hsize
        exact List.cons_ne_nil _ _
      · rw [List.flatten_cons, List.flatten_cons, ← List.append_assoc, List.take_append_drop]

/-- What was read and is not used yet, and the parts that are still to come. -/
structure Buffered (α : Type) where
  buffer : List α
  parts : List (List α)

namespace Buffered

open List

/-- All that is still to come. -/
def pending (b : Buffered α) : List α := b.buffer ++ b.parts.flatten

variable {n : ℕ}

theorem take_pending {b : Buffered α} (h : n ≤ b.buffer.length) :
    b.pending.take n = b.buffer.take n := by
  rw [pending, take_append_of_le_length h]

/-- What was used is not to come again. -/
theorem pending_drop {b : Buffered α} (h : n ≤ b.buffer.length) :
    pending ⟨b.buffer.drop n, b.parts⟩ = b.pending.drop n := by
  rw [pending, pending, drop_append_of_le_length h]

/-- One read more, at the end of the buffer. -/
def fill (size : ℕ) (b : Buffered α) : Option (Buffered α) :=
  (readSome size b.parts).map fun (chunk, parts) => ⟨b.buffer ++ chunk, parts⟩

variable {b b' : Buffered α} {size : ℕ}

theorem pending_of_fill_eq_none (h : b.fill size = none) : b.pending = b.buffer := by
  rw [pending, readSome_eq_none_iff.1 (Option.map_eq_none_iff.1 h), append_nil]

theorem fill_eq_some (hsize : 0 < size) (h : b.fill size = some b') :
    b.buffer.length < b'.buffer.length ∧ b'.buffer.length ≤ b.buffer.length + size ∧
      b'.pending = b.pending ∧ b'.parts.flatten.length < b.parts.flatten.length := by
  obtain ⟨⟨chunk, rest⟩, hread, rfl⟩ := Option.map_eq_some_iff.1 h
  obtain ⟨hne, hle, hflatten⟩ := readSome_eq_some hsize hread
  have hpos := length_pos_of_ne_nil hne
  simp only [pending, hflatten, length_append, append_assoc]
  exact ⟨by omega, by omega, trivial, by omega⟩

/-- What is read of a first part, before anything behind it. -/
theorem fill_cons {buffer first : List α} (hne : first ≠ []) (parts : List (List α)) :
    fill size ⟨buffer, first :: parts⟩ =
      some ⟨buffer ++ first.take size, first.drop size :: parts⟩ := by
  obtain ⟨x, more, rfl⟩ := exists_cons_of_ne_nil hne
  rfl

/-- One read more where the buffer is empty. -/
def refill (size : ℕ) (b : Buffered α) : Option (Buffered α) :=
  if b.buffer = [] then b.fill size else some b

theorem pending_of_refill_eq_none (h : b.refill size = none) : b.pending = [] := by
  rw [refill] at h
  split_ifs at h with hempty
  rw [pending_of_fill_eq_none h, hempty]

variable (hsize : 0 < size)
include hsize

theorem refill_eq_some (h : b.refill size = some b') :
    b'.buffer ≠ [] ∧ b'.pending = b.pending := by
  rw [refill] at h
  split_ifs at h with hempty
  · obtain ⟨hlt, -, hpending, -⟩ := fill_eq_some hsize h
    exact ⟨ne_nil_of_length_pos (by omega), hpending⟩
  · obtain rfl := Option.some.inj h
    exact ⟨hempty, rfl⟩

/-! ### As much as is asked for -/

/-- Reads until so much is in the buffer. -/
def ensure (size : ℕ) (hsize : 0 < size) (length : ℕ) (b : Buffered α) : Option (Buffered α) :=
  if length ≤ b.buffer.length then some b
  else
    match _hfill : b.fill size with
    | none => none
    | some b' => ensure size hsize length b'
termination_by b.parts.flatten.length
decreasing_by exact (fill_eq_some hsize _hfill).2.2.2

/-- It is found exactly where so much is to come, and nothing is lost. -/
theorem ensure_spec (length : ℕ) (b : Buffered α) :
    match b.ensure size hsize length with
    | none => b.pending.length < length
    | some b' => length ≤ b'.buffer.length ∧ b'.pending = b.pending := by
  fun_induction ensure size hsize length b with
  | case1 b hle => exact ⟨hle, rfl⟩
  | case2 b hlt hfill =>
    rw [pending_of_fill_eq_none hfill]
    omega
  | case3 b hlt b' hfill ih => rwa [(fill_eq_some hsize hfill).2.2.1] at ih

/-! ### Up to a mark -/

/-- Why a mark was not found. -/
inductive Missing
  | exceeded | closed

variable [DecidableEq α]

/-- Reads up to the mark. More than `limit` items without it are refused. -/
def readUntil (size : ℕ) (hsize : 0 < size) (mark : List α) (limit : ℕ) (b : Buffered α) :
    Except Missing (List α × Buffered α) :=
  match splitInfix mark b.buffer with
  | some (line, rest) => .ok (line, ⟨rest, b.parts⟩)
  | none =>
    if limit < b.buffer.length then .error .exceeded
    else
      match _hfill : b.fill size with
      | none => .error .closed
      | some b' => readUntil size hsize mark limit b'
termination_by b.parts.flatten.length
decreasing_by exact (fill_eq_some hsize _hfill).2.2.2

variable {mark line rest : List α} {limit : ℕ}

/-- A mark that ends no later than one item behind the limit is found. -/
theorem readUntil_of_le (h : splitInfix mark b.pending = some (line, rest))
    (hle : line.length + mark.length ≤ limit + 1) :
    ∃ b', b.readUntil size hsize mark limit = .ok (line, b') ∧ b'.pending = rest := by
  fun_induction readUntil size hsize mark limit b with
  | case1 b line' rest' hsplit =>
    have happend := splitInfix_append hsplit b.parts.flatten
    obtain ⟨rfl, rfl⟩ : line' = line ∧ rest' ++ b.parts.flatten = rest := by
      simpa using happend.symm.trans h
    exact ⟨_, rfl, rfl⟩
  | case2 b hsplit hlt =>
    -- so much of it is in the buffer that the mark is
    obtain ⟨hpending, -⟩ := firstInfix_of_splitInfix h
    have hinfix : mark <:+: b.buffer := by
      have hpre : line ++ mark <+: b.buffer := by
        have hline : line ++ mark <+: b.pending := ⟨rest, by rw [hpending, append_assoc]⟩
        refine prefix_of_prefix_length_le hline (prefix_append _ _) ?_
        rw [length_append]
        omega
      exact List.IsInfix.trans ⟨line, [], by rw [append_nil]⟩ hpre.isInfix
    exact absurd hinfix (splitInfix_eq_none_iff.1 hsplit)
  | case3 b hsplit hlt hfill =>
    rw [pending_of_fill_eq_none hfill, hsplit] at h
    cases h
  | case4 b hsplit hlt b' hfill ih =>
    rw [← (fill_eq_some hsize hfill).2.2.1] at h
    exact ih h

/-- A mark that ends more than one read behind the limit is not found. -/
theorem readUntil_of_lt (h : splitInfix mark b.pending = some (line, rest))
    (hbuffer : b.buffer.length ≤ limit + size)
    (hlt : limit + size < line.length + mark.length) :
    b.readUntil size hsize mark limit = .error .exceeded := by
  fun_induction readUntil size hsize mark limit b with
  | case1 b line' rest' hsplit =>
    have happend := splitInfix_append hsplit b.parts.flatten
    obtain ⟨rfl, rfl⟩ : line' = line ∧ rest' ++ b.parts.flatten = rest := by
      simpa using happend.symm.trans h
    obtain ⟨hhay, -⟩ := firstInfix_of_splitInfix hsplit
    rw [hhay, length_append, length_append] at hbuffer
    omega
  | case2 => rfl
  | case3 b hsplit hle hfill =>
    rw [pending_of_fill_eq_none hfill, hsplit] at h
    cases h
  | case4 b hsplit hle b' hfill ih =>
    obtain ⟨-, hsome, hpending, -⟩ := fill_eq_some hsize hfill
    rw [← hpending] at h
    exact ih h (by omega)

/-- Where there is no mark, the limit alone says what is reported. -/
theorem readUntil_of_none (h : splitInfix mark b.pending = none) :
    b.readUntil size hsize mark limit =
      .error (if limit < b.pending.length then .exceeded else .closed) := by
  fun_induction readUntil size hsize mark limit b with
  | case1 b line' rest' hsplit =>
    rw [pending, splitInfix_append hsplit] at h
    cases h
  | case2 b hsplit hlt =>
    rw [if_pos]
    rw [pending, length_append]
    omega
  | case3 b hsplit hle hfill => rw [pending_of_fill_eq_none hfill, if_neg hle]
  | case4 b hsplit hle b' hfill ih =>
    have hpending := (fill_eq_some hsize hfill).2.2.1
    rw [← hpending] at h ⊢
    exact ih h

/-- What is left is shorter by the mark. -/
theorem length_pending_of_readUntil (h : b.readUntil size hsize mark limit = .ok (line, b')) :
    b'.pending.length + mark.length ≤ b.pending.length := by
  fun_induction readUntil size hsize mark limit b with
  | case1 b line' rest' hsplit =>
    obtain ⟨rfl, rfl⟩ : line' = line ∧ ⟨rest', b.parts⟩ = b' := by simpa using h
    obtain ⟨hhay, -⟩ := firstInfix_of_splitInfix hsplit
    simp only [pending, hhay, length_append]
    omega
  | case2 | case3 => cases h
  | case4 b hsplit hle b'' hfill ih =>
    rw [← (fill_eq_some hsize hfill).2.2.1]
    exact ih h

/-- Without the mark in front of the end of a part, the next piece of the part is read. -/
theorem readUntil_part {buffer first : List α} (hmark : splitInfix mark (buffer ++ first) = none)
    (hle : buffer.length ≤ limit) (hne : first ≠ []) (parts : List (List α)) :
    readUntil size hsize mark limit ⟨buffer, first :: parts⟩ =
      readUntil size hsize mark limit ⟨buffer ++ first.take size, first.drop size :: parts⟩ := by
  rw [readUntil, splitInfix_eq_none_of_append hmark]
  dsimp only
  rw [if_neg (Nat.not_lt.2 hle)]
  split
  next hfill => cases hfill.symm.trans (fill_cons hne parts)
  next b' hfill => rw [Option.some.inj (hfill.symm.trans (fill_cons hne parts))]

/-- A part that ends behind the limit and in front of the mark. -/
theorem readUntil_stops {buffer first : List α} {parts : List (List α)}
    (hmark : splitInfix mark (buffer ++ first) = none) (hlt : limit < (buffer ++ first).length) :
    readUntil size hsize mark limit ⟨buffer, first :: parts⟩ = .error .exceeded := by
  induction hlength : first.length using Nat.strong_induction_on generalizing buffer first with
  | _ n ih =>
    by_cases hlimit : limit < buffer.length
    · rw [readUntil, splitInfix_eq_none_of_append hmark]
      exact if_pos hlimit
    · have hne : first ≠ [] := by
        rintro rfl
        rw [append_nil] at hlt
        exact hlimit hlt
      have hpos := length_pos_of_ne_nil hne
      have hsame : buffer ++ first.take size ++ first.drop size = buffer ++ first := by
        rw [append_assoc, take_append_drop]
      rw [readUntil_part hsize hmark (Nat.not_lt.1 hlimit) hne]
      refine ih _ ?_ (by rwa [hsame]) (by rwa [hsame]) rfl
      rw [length_drop]
      omega

/-- A part that ends in front of the limit, and one read behind it that ends behind the mark. -/
theorem readUntil_jumps {buffer first second tail : List α}
    {parts : List (List α)} (hmark : splitInfix mark (buffer ++ first) = none)
    (hle : (buffer ++ first).length ≤ limit) (hsecond : second ≠ [])
    (hfound : splitInfix mark (buffer ++ first ++ second.take size) = some (line, tail)) :
    readUntil size hsize mark limit ⟨buffer, first :: second :: parts⟩ =
      .ok (line, ⟨tail, second.drop size :: parts⟩) := by
  induction hlength : first.length using Nat.strong_induction_on generalizing buffer first with
  | _ n ih =>
    have hlimit : buffer.length ≤ limit := by
      rw [length_append] at hle
      omega
    by_cases hne : first = []
    · subst hne
      rw [append_nil] at hfound hmark
      have hfirst : fill size ⟨buffer, [] :: second :: parts⟩ =
          some ⟨buffer ++ second.take size, second.drop size :: parts⟩ :=
        fill_cons hsecond parts
      rw [readUntil, hmark]
      dsimp only
      rw [if_neg (Nat.not_lt.2 hlimit)]
      split
      next hfill => cases hfill.symm.trans hfirst
      next b' hfill =>
        obtain rfl := Option.some.inj (hfill.symm.trans hfirst)
        rw [readUntil, hfound]
    · have hpos := length_pos_of_ne_nil hne
      have hsame : buffer ++ first.take size ++ first.drop size = buffer ++ first := by
        rw [append_assoc, take_append_drop]
      rw [readUntil_part hsize hmark hlimit hne]
      refine ih _ ?_ (by rwa [hsame]) (by rwa [hsame]) (by rwa [hsame]) rfl
      rw [length_drop]
      omega

end Buffered

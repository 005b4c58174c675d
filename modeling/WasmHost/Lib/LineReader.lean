import Mathlib.Data.List.Basic
import WasmHost.Lib.Except
import WasmHost.Lib.SepPath

/-!
# Lines that come in chunks

A reader takes a stream in chunks, keeps what is left of the last line, and gives every line that
has ended to a step. `readLines` reads what it has; `readChunk` refuses a chunk that makes the
buffer too long.

* `readChunk_eq_foldlM`: a chunk within the limit is read as its elements are, one by one.
* `foldlM_readChunk_eq_readLines`: what is read of some chunks is what is read of the whole.
* `foldlM_readChunk_of_fits`: so are the errors, where every chunk is within the limit.
-/

namespace LineReader

open SepPath List

variable {α σ ε : Type} [DecidableEq α] (sep : α) (step : σ → List α → Except ε σ)

/-- Read on where the bytes of the line so far are known. -/
def readLines (line : List α) (s : σ) : List α → Except ε (List α × σ)
  | [] => .ok (line, s)
  | x :: rest =>
    if x = sep then (step s line).bind fun s' => readLines [] s' rest
    else readLines (line ++ [x]) s rest

/-- Read a chunk after what is left of the last line. -/
def readChunk (limit : ℕ) (refuse : σ → ε) (r : List α × σ) (chunk : List α) :
    Except ε (List α × σ) :=
  if limit < (r.1 ++ chunk).length then .error (refuse r.2)
  else readLines sep step [] r.2 (r.1 ++ chunk)

variable {sep} {step} {line : List α} {s : σ}

theorem readLines_append (a b : List α) :
    readLines sep step line s (a ++ b) =
      (readLines sep step line s a).bind fun r => readLines sep step r.1 r.2 b := by
  induction a generalizing line s with
  | nil => rfl
  | cons x a ih =>
    rw [cons_append, readLines, readLines]
    split_ifs
    · cases step s line with
      | error => rfl
      | ok => exact ih
    · exact ih

/-- A part without an end only makes the line longer. -/
theorem readLines_of_not_mem {a : List α} (h : sep ∉ a) :
    readLines sep step line s a = .ok (line ++ a, s) := by
  induction a generalizing line with
  | nil => rw [readLines, append_nil]
  | cons x a ih =>
    rw [mem_cons, not_or] at h
    obtain ⟨hx, ha⟩ := h
    rw [readLines, if_neg (Ne.symm hx), ih ha, append_assoc, singleton_append]

theorem readLines_line_append (h : sep ∉ line) (a : List α) :
    readLines sep step [] s (line ++ a) = readLines sep step line s a := by
  rw [readLines_append, readLines_of_not_mem h]
  rfl

/-- What is left has no end in it. -/
theorem not_mem_of_readLines {a : List α} {r : List α × σ} (hline : sep ∉ line)
    (h : readLines sep step line s a = .ok r) : sep ∉ r.1 := by
  induction a generalizing line s with
  | nil =>
    obtain rfl := Except.ok.inj h
    exact hline
  | cons x a ih =>
    rw [readLines] at h
    split_ifs at h with hx
    · obtain ⟨s', -, h⟩ := Except.bind_eq_ok_iff.1 h
      exact ih not_mem_nil h
    · refine ih ?_ h
      rw [mem_append, mem_singleton, not_or]
      exact ⟨hline, Ne.symm hx⟩

variable {limit : ℕ} {refuse : σ → ε}

/-- One more element. -/
theorem readChunk_singleton (h : sep ∉ line) (x : α) :
    readChunk sep step limit refuse (line, s) [x] =
      if limit < line.length + 1 then .error (refuse s)
      else if x = sep then (step s line).bind fun s' => .ok ([], s')
      else .ok (line ++ [x], s) := by
  rw [readChunk, length_append, length_singleton]
  split_ifs with hlimit hx
  · rfl
  · rw [readLines_line_append h, readLines, if_pos hx]
    rfl
  · rw [readLines_line_append h, readLines, if_neg hx]
    rfl

/-- A chunk within the limit is read as its elements are, one by one. -/
theorem readChunk_eq_foldlM {chunk : List α} (hline : sep ∉ line)
    (hlimit : (line ++ chunk).length ≤ limit) :
    readChunk sep step limit refuse (line, s) chunk =
      (chunk.map ([·])).foldlM (readChunk sep step limit refuse) (line, s) := by
  rw [readChunk, if_neg (Nat.not_lt.2 hlimit), readLines_line_append hline]
  induction chunk generalizing line s with
  | nil => rfl
  | cons x chunk ih =>
    rw [length_append, length_cons] at hlimit
    rw [map_cons, foldlM_cons, readChunk_singleton hline, if_neg (by omega), readLines]
    split_ifs with hx
    · -- a line has ended, and the rest is shorter
      cases step s line with
      | error => rfl
      | ok => exact ih not_mem_nil (by rw [nil_append]; omega)
    · refine ih ?_ ?_
      · rw [mem_append, mem_singleton, not_or]
        exact ⟨hline, Ne.symm hx⟩
      · rw [append_assoc, length_append, singleton_append, length_cons]
        exact hlimit

theorem readChunk_eq_readLines {chunk : List α} {r : List α × σ} (hline : sep ∉ line)
    (h : readChunk sep step limit refuse (line, s) chunk = .ok r) :
    readLines sep step line s chunk = .ok r := by
  rw [readChunk] at h
  split_ifs at h
  rwa [readLines_line_append hline] at h

theorem not_mem_of_readChunk {chunk : List α} {r : List α × σ} (hline : sep ∉ line)
    (h : readChunk sep step limit refuse (line, s) chunk = .ok r) : sep ∉ r.1 :=
  not_mem_of_readLines hline (readChunk_eq_readLines hline h)

/-- What is read of some chunks is what is read of the whole. -/
theorem foldlM_readChunk_eq_readLines {chunks : List (List α)} {r : List α × σ}
    (hline : sep ∉ line)
    (h : chunks.foldlM (readChunk sep step limit refuse) (line, s) = .ok r) :
    readLines sep step line s chunks.flatten = .ok r := by
  induction chunks generalizing line s with
  | nil => exact h
  | cons chunk chunks ih =>
    obtain ⟨⟨line', s'⟩, hchunk, h⟩ := Except.bind_eq_ok_iff.1 h
    have hfirst := readChunk_eq_readLines hline hchunk
    rw [flatten_cons, readLines_append, hfirst]
    exact ih (not_mem_of_readLines hline hfirst) h

/-- The lines that were read, with what is left at their end. -/
theorem splitOn_of_readLines {a : List α} {r : List α × σ} (hline : sep ∉ line)
    (h : readLines sep step line s a = .ok r) :
    ∃ lines, (line ++ a).splitOn sep = lines ++ [r.1] ∧ lines.foldlM step s = .ok r.2 := by
  induction a generalizing line s with
  | nil =>
    obtain rfl := Except.ok.inj h
    refine ⟨[], ?_, rfl⟩
    rw [append_nil, splitOn_of_not_mem hline]
    rfl
  | cons x a ih =>
    rw [readLines] at h
    split_ifs at h with hx
    · obtain ⟨s', hs', h⟩ := Except.bind_eq_ok_iff.1 h
      obtain ⟨lines, hsplit, hfold⟩ := ih not_mem_nil h
      refine ⟨line :: lines, ?_, Except.bind_eq_ok_iff.2 ⟨s', hs', hfold⟩⟩
      rw [hx, splitOn_append_sep, splitOn_of_not_mem hline, ← nil_append a, hsplit]
      rfl
    · rw [← singleton_append, ← append_assoc]
      refine ih ?_ h
      rw [mem_append, mem_singleton, not_or]
      exact ⟨hline, Ne.symm hx⟩

/-- Lines that end, and what is behind them. -/
theorem readLines_eq_foldlM {a rest : List α} {lines : List (List α)} (hline : sep ∉ line)
    (h : (line ++ a).splitOn sep = lines ++ [rest]) :
    readLines sep step line s a = (lines.foldlM step s).bind fun s' => .ok (rest, s') := by
  induction a generalizing line s lines with
  | nil =>
    rw [append_nil, splitOn_of_not_mem hline] at h
    obtain ⟨rfl, hrest⟩ := append_inj' (show [] ++ [line] = lines ++ [rest] from h) rfl
    obtain rfl := singleton_injective hrest
    rfl
  | cons x a ih =>
    rw [readLines]
    split_ifs with hx
    · rw [hx, splitOn_append_sep, splitOn_of_not_mem hline] at h
      cases lines with
      | nil =>
        obtain ⟨-, hnone⟩ := List.cons.inj h
        exact absurd hnone (splitOn_ne_nil sep a)
      | cons =>
        obtain ⟨rfl, hrest⟩ := List.cons.inj h
        rw [foldlM_cons]
        cases step s line with
        | error => rfl
        | ok => exact ih not_mem_nil hrest
    · refine ih ?_ ?_
      · rw [mem_append, mem_singleton, not_or]
        exact ⟨hline, Ne.symm hx⟩
      · rwa [append_assoc, singleton_append]

/-! ### Chunks within the limit -/

variable (sep) in
/-- What is behind the last line that ends. -/
def lastLine (a : List α) : List α := (a.splitOn sep).getLast?.getD []

theorem eq_lastLine_of_readLines {a : List α} {r : List α × σ} (hline : sep ∉ line)
    (h : readLines sep step line s a = .ok r) : r.1 = lastLine sep (line ++ a) := by
  obtain ⟨lines, hsplit, -⟩ := splitOn_of_readLines hline h
  rw [lastLine, hsplit, List.getLast?_concat]
  rfl

variable (sep) in
/-- Every chunk is within the limit together with what is left of the last line before it. -/
def Fits (limit : ℕ) : List α → List (List α) → Prop
  | _, [] => True
  | line, chunk :: chunks =>
    (line ++ chunk).length ≤ limit ∧ Fits limit (lastLine sep (line ++ chunk)) chunks

/-- Chunks within the limit are read as the whole is. -/
theorem foldlM_readChunk_of_fits {chunks : List (List α)} (hline : sep ∉ line)
    (h : Fits sep limit line chunks) :
    chunks.foldlM (readChunk sep step limit refuse) (line, s) =
      readLines sep step line s chunks.flatten := by
  induction chunks generalizing line s with
  | nil => rfl
  | cons chunk chunks ih =>
    obtain ⟨hlimit, hrest⟩ := h
    have hchunk : readChunk sep step limit refuse
        (line, s) chunk = readLines sep step line s chunk := by
      rw [readChunk, if_neg (Nat.not_lt.2 hlimit), readLines_line_append hline]
    rw [foldlM_cons, hchunk, flatten_cons, readLines_append]
    cases hread : readLines sep step line s chunk with
    | error => rfl
    | ok =>
      rw [← eq_lastLine_of_readLines hline hread] at hrest
      exact ih (not_mem_of_readLines hline hread) hrest

/-- Chunks that are all read are within the limit. -/
theorem fits_of_foldlM_readChunk {chunks : List (List α)} {r : List α × σ} (hline : sep ∉ line)
    (h : chunks.foldlM (readChunk sep step limit refuse) (line, s) = .ok r) :
    Fits sep limit line chunks := by
  induction chunks generalizing line s with
  | nil => trivial
  | cons chunk chunks ih =>
    obtain ⟨⟨line', s'⟩, hchunk, hrest⟩ := Except.bind_eq_ok_iff.1 h
    have hread := readChunk_eq_readLines hline hchunk
    refine ⟨?_, ?_⟩
    · unfold readChunk at hchunk
      split_ifs at hchunk with hlimit
      exact Nat.not_lt.1 hlimit
    · rw [← eq_lastLine_of_readLines hline hread]
      exact ih (not_mem_of_readLines hline hread) hrest

section

variable {P : σ → Prop} {E : ε → Prop}

theorem readLines_meets (hstep : ∀ s line, P s → (step s line).Meets P E) (hs : P s)
    (a : List α) : (readLines sep step line s a).Meets (fun r => P r.2) E := by
  induction a generalizing line s with
  | nil => exact hs
  | cons x a ih =>
    rw [readLines]
    split_ifs
    · exact (hstep s line hs).bind fun s' hs' => ih hs'
    · exact ih hs

/-- What every line keeps, every chunk keeps. -/
theorem readChunk_meets (hstep : ∀ s line, P s → (step s line).Meets P E)
    (hrefuse : ∀ s, P s → E (refuse s)) (r : List α × σ) (chunk : List α) (hr : P r.2) :
    (readChunk sep step limit refuse r chunk).Meets (fun r => P r.2) E := by
  rw [readChunk]
  split_ifs
  · exact hrefuse r.2 hr
  · exact readLines_meets hstep hr _

end

end LineReader

import Mathlib.Data.List.Basic
import Mathlib.Data.List.TakeDrop

/-!
# Reading a list of records in pages

A server writes the records of a list one behind the other into a page of fixed capacity, from
the record a cookie stands for, and cuts what does not fit. A client takes the records that
arrived whole and goes on behind the last of them, until a page is not full.

* `PagedReading.readRecords_take`: the records of a page are those that fit.
* `PagedReading.exists_readPages`: a client that has room for every single record gets them all.
-/

namespace PagedReading

open List

universe u v w

variable {α : Type u} {β : Type v} {σ : Type w}

/-- The records in front of `bytes`. There are at most `fuel` of them. -/
def readRecords (next : List β → Option (α × List β)) : ℕ → List β → List α
  | 0, _ => []
  | fuel + 1, bytes =>
      match next bytes with
      | none => []
      | some (a, rest) => a :: readRecords next fuel rest

/-- The records that fit into a page. -/
def fitting (encode : α → List β) : ℕ → List α → List α
  | _, [] => []
  | capacity, a :: rest =>
      if (encode a).length ≤ capacity then
        a :: fitting encode (capacity - (encode a).length) rest
      else []

/-- A client that reads pages from `cookie` on. `page` is what the server does, in its state. -/
def readPages (next : List β → Option (α × List β)) (cookieOf : α → ℕ) (capacity : ℕ)
    (page : σ → ℕ → Option (σ × List β)) : ℕ → σ → ℕ → Option (List α)
  | 0, _, _ => none
  | fuel + 1, s, cookie =>
      match page s cookie with
      | none => none
      | some (s', bytes) =>
          let records := readRecords next bytes.length bytes
          if bytes.length < capacity then some records
          else
            match records.getLast? with
            | none => none
            | some a =>
                (readPages next cookieOf capacity page fuel s' (cookieOf a)).map (records ++ ·)

section

variable {encode : α → List β}

theorem fitting_isPrefix (capacity : ℕ) (records : List α) :
    fitting encode capacity records <+: records := by
  induction records generalizing capacity with
  | nil => exact nil_prefix
  | cons a rest ih =>
    unfold fitting
    split
    · exact (prefix_cons_inj a).2 (ih _)
    · exact nil_prefix

/-- If the records take no more room than there is, they all fit. -/
theorem fitting_eq_self {capacity : ℕ} {records : List α}
    (h : (records.flatMap encode).length ≤ capacity) :
    fitting encode capacity records = records := by
  induction records generalizing capacity with
  | nil => rfl
  | cons a rest ih =>
    rw [flatMap_cons, length_append] at h
    have hfits : (encode a).length ≤ capacity := by omega
    have hrest : (rest.flatMap encode).length ≤ capacity - (encode a).length := by omega
    rw [fitting, if_pos hfits, ih hrest]

theorem fitting_ne_nil {capacity : ℕ} {a : α} (rest : List α)
    (h : (encode a).length ≤ capacity) : fitting encode capacity (a :: rest) ≠ [] := by
  rw [fitting, if_pos h]
  exact cons_ne_nil _ _

/-- The cookie of the last record of a page is the number of the next one. -/
theorem exists_getLast_of_isPrefix {records got : List α} {cookieOf : α → ℕ} {cookie : ℕ}
    (hcookie : ∀ i (h : i < records.length), cookieOf records[i] = i + 1)
    (hgot : got <+: records.drop cookie) (hne : got ≠ []) :
    ∃ a, got.getLast? = some a ∧ cookieOf a = cookie + got.length := by
  obtain ⟨rest, hrest⟩ := hgot
  obtain ⟨init, a, rfl⟩ : ∃ init a, got = init ++ [a] :=
    ⟨got.dropLast, got.getLast hne, (dropLast_append_getLast hne).symm⟩
  have hget : records[cookie + init.length]? = some a := by
    rw [← List.getElem?_drop, ← hrest, append_assoc,
      List.getElem?_append_right (Nat.le_refl _), Nat.sub_self]
    rfl
  obtain ⟨hlt, hat⟩ := List.getElem?_eq_some_iff.1 hget
  refine ⟨a, List.getLast?_concat, ?_⟩
  rw [← hat, hcookie _ hlt, length_append, length_singleton, Nat.add_assoc]

/-! ### Pages -/

variable {next : List β → Option (α × List β)} {records : List α}
  (hwhole : ∀ a ∈ records, ∀ rest, next (encode a ++ rest) = some (a, rest))
  (hcut : ∀ a ∈ records, ∀ k < (encode a).length, next ((encode a).take k) = none)
  (hnil : next [] = none)

include hwhole hcut hnil

/-- The records of a page are those that fit. -/
theorem readRecords_take {capacity fuel : ℕ}
    (hfuel : ((records.flatMap encode).take capacity).length
      ≤ fuel) :
    readRecords next fuel ((records.flatMap encode).take capacity) =
      fitting encode capacity records := by
  induction records generalizing capacity fuel with
  | nil =>
    cases fuel with
    | zero => rfl
    | succ => rw [flatMap_nil, take_nil, readRecords, hnil, fitting]
  | cons a rest ih =>
    have hne : encode a ≠ [] := by
      intro hempty
      have h := hwhole a mem_cons_self []
      rw [hempty, nil_append, hnil] at h
      cases h
    have hpos : 0 < (encode a).length := length_pos_iff.2 hne
    rw [flatMap_cons] at hfuel ⊢
    by_cases hfits : (encode a).length ≤ capacity
    · -- the record is there, and the rest of the page is a page of the other records
      rw [take_append, take_of_length_le hfits, length_append] at hfuel
      obtain ⟨fuel, rfl⟩ : ∃ k, fuel = k + 1 := ⟨fuel - 1, by omega⟩
      rw [fitting, if_pos hfits, take_append, take_of_length_le hfits, readRecords,
        hwhole a mem_cons_self]
      refine congrArg (a :: ·) (ih ?_ ?_ ?_)
      · exact fun b hb => hwhole b (mem_cons_of_mem _ hb)
      · exact fun b hb => hcut b (mem_cons_of_mem _ hb)
      · omega
    · have hlt : capacity < (encode a).length := Nat.lt_of_not_le hfits
      rw [fitting, if_neg hfits, take_append_of_le_length (Nat.le_of_lt hlt)]
      cases fuel with
      | zero => rfl
      | succ => rw [readRecords, hcut a mem_cons_self _ hlt]

variable {cookieOf : α → ℕ} {capacity : ℕ} {page : σ → ℕ → Option (σ × List β)} {Inv : σ → Prop}

/-- A client that has room for every single record gets them all, and then a page that is not
full. -/
theorem exists_readPages (hroom : ∀ a ∈ records, (encode a).length ≤ capacity)
    (hcapacity : 0 < capacity)
    (hcookie : ∀ i (h : i < records.length), cookieOf records[i] = i + 1)
    (hpage : ∀ s, Inv s → ∀ cookie ≤ records.length, ∃ s', Inv s' ∧
      page s cookie = some (s', ((records.drop cookie).flatMap encode).take capacity))
    {cookie : ℕ} (hle : cookie ≤ records.length) {s : σ} (hs : Inv s) :
    ∃ fuel, readPages next cookieOf capacity page fuel s cookie =
      some (records.drop cookie) := by
  -- by the number of records left
  induction hleft : records.length - cookie using Nat.strongRecOn generalizing cookie s with
  | ind n ih =>
    obtain ⟨s', hs', hpage'⟩ := hpage s hs cookie hle
    have hread := @readRecords_take _ _ encode next (records.drop cookie)
      (fun a ha => hwhole a (mem_of_mem_drop ha))
      (fun a ha => hcut a (mem_of_mem_drop ha)) hnil capacity _ (Nat.le_refl _)
    by_cases hfull : capacity ≤ ((records.drop cookie).flatMap encode).length
    · -- the page is full, and the next one begins behind the last record that fitted
      have hlt : cookie < records.length := by
        by_contra hover
        rw [drop_of_length_le (Nat.le_of_not_lt hover)] at hfull
        exact Nat.not_le_of_lt hcapacity hfull
      have hprefix : fitting encode capacity (records.drop cookie) <+: records.drop cookie :=
        fitting_isPrefix _ _
      have hne : fitting encode capacity (records.drop cookie) ≠ [] := by
        rw [drop_eq_getElem_cons hlt]
        exact fitting_ne_nil _ (hroom _ (getElem_mem hlt))
      obtain ⟨a, hlast, hnext⟩ := exists_getLast_of_isPrefix hcookie hprefix hne
      obtain ⟨rest, hrest⟩ := hprefix
      have hlength := congrArg List.length hrest
      have hpos := length_pos_iff.2 hne
      rw [length_append, length_drop] at hlength
      have hon : cookieOf a ≤ records.length := by omega
      obtain ⟨fuel, hfuel⟩ := ih _ (by omega) hon hs' rfl
      have hused : (((records.drop cookie).flatMap encode).take capacity).length = capacity := by
        rw [length_take, Nat.min_eq_left hfull]
      refine ⟨fuel + 1, ?_⟩
      rw [readPages, hpage']
      dsimp only
      rw [hread, if_neg (by rw [hused]; exact Nat.lt_irrefl _), hlast]
      dsimp only
      have hleft' :=
        congrArg (List.drop (fitting encode capacity (records.drop cookie)).length) hrest
      rw [drop_left, drop_drop] at hleft'
      rw [hfuel, hnext, Option.map_some, ← hleft', hrest]
    · have hshort : ((records.drop cookie).flatMap encode).length < capacity :=
        Nat.lt_of_not_le hfull
      refine ⟨1, ?_⟩
      rw [readPages, hpage']
      dsimp only
      rw [hread, fitting_eq_self (Nat.le_of_lt hshort), take_of_length_le (Nat.le_of_lt hshort),
        if_pos hshort]

end

end PagedReading

import Mathlib.Data.List.Nodup
import Mathlib.Data.List.Perm.Subperm
import Mathlib.Tactic.Common

/-!
# Insertion-ordered maps

A finite map that remembers the order in which its keys were first set: the `Map` of a
language whose iteration order is insertion order. Setting a present key keeps its place,
deleting it frees the place. The keys are pairwise distinct by construction, so a map can be
read either through `get` or through its list of entries (`mem_entries`).

* `OrdMap.get_set`, `OrdMap.get_delete`: lookups after one update.
* `OrdMap.get_ofList`: a map built by setting the entries of a list one after another holds
  the last entry of each key.
* `OrdMap.countVals_set`, `OrdMap.countVals_delete`: how updates change the number of values
  with a property.
-/

/-- A finite map from `κ` to `α` whose entries are kept in insertion order. -/
structure OrdMap (κ α : Type) where
  /-- The entries, oldest key first. -/
  entries : List (κ × α)
  /-- No key occurs twice. -/
  nodup : (entries.map Prod.fst).Nodup

/-- A finite set kept in insertion order. -/
abbrev OrdSet (κ : Type) := OrdMap κ Unit

namespace OrdMap

open List

variable {κ α β : Type}

/-- The map without entries. -/
def empty : OrdMap κ α := ⟨[], nodup_nil⟩

/-- The empty map. -/
instance : Inhabited (OrdMap κ α) := ⟨empty⟩

/-- The keys, oldest first. -/
def keys (m : OrdMap κ α) : List κ := m.entries.map Prod.fst

/-- The values, in the order of their keys. -/
def values (m : OrdMap κ α) : List α := m.entries.map Prod.snd

/-- Replace every value by a function of its key and itself. -/
def mapVals (f : κ → α → β) (m : OrdMap κ α) : OrdMap κ β where
  entries := m.entries.map fun e => (e.1, f e.1 e.2)
  nodup := by simpa [Function.comp_def] using m.nodup

/-- The number of values with a property. -/
def countVals (p : α → Bool) (m : OrdMap κ α) : ℕ := m.entries.countP fun e => p e.2

section Lookup

variable [DecidableEq κ]

variable (m : OrdMap κ α)

/-- The value at a key. -/
def get (k : κ) : Option α :=
  (m.entries.find? fun e => e.1 = k).map Prod.snd

/-- Whether a key is present. -/
def has (k : κ) : Bool := (m.get k).isSome

variable (k : κ)

/-- An entry is in the list iff lookup finds it. -/
theorem mem_entries (a : α) :
    (k, a) ∈ m.entries ↔ m.get k = some a := by
  obtain ⟨es, hnd⟩ := m
  simp only [get]
  induction es with
  | nil => simp
  | cons e es ih =>
    rw [map_cons, nodup_cons] at hnd
    have htail := ih hnd.2
    by_cases hk : e.1 = k
    · have hnot : ∀ b, (k, b) ∉ es := fun b hb =>
        hnd.1 (mem_map.2 ⟨_, hb, hk.symm⟩)
      simp only [mem_cons, hnot, or_false, hk, decide_true, List.find?_cons_of_pos,
        Option.map_some, Option.some.injEq]
      constructor
      · rintro rfl
        rfl
      · rintro rfl
        exact Prod.ext hk.symm rfl
    · have hne : (k, a) ≠ e := fun h => hk (by rw [← h])
      simp [hk, hne, htail]

/-- A key without a value is not among the keys. -/
theorem get_eq_none_iff : m.get k = none ↔ k ∉ m.keys := by
  rw [keys, mem_map, Option.eq_none_iff_forall_ne_some]
  constructor
  · rintro h ⟨e, he, rfl⟩
    exact h e.2 ((m.mem_entries e.1 e.2).1 he)
  · intro h a ha
    exact h ⟨(k, a), (m.mem_entries k a).2 ha, rfl⟩

theorem has_iff : m.has k = true ↔ ∃ a, m.get k = some a := by
  simp [has, Option.isSome_iff_exists]

theorem has_eq_false_iff : m.has k = false ↔ m.get k = none := by
  simp [has]

theorem mem_keys : k ∈ m.keys ↔ m.has k = true := by
  rw [← not_iff_not, ← get_eq_none_iff, Bool.not_eq_true, has_eq_false_iff]

theorem mem_values (a : α) : a ∈ m.values ↔ ∃ k, m.get k = some a := by
  simp only [values, mem_map, Prod.exists, exists_eq_right, mem_entries]

theorem mem_map_values {β : Type*} (m : OrdMap κ α) (f : α → β) (b : β) :
    b ∈ m.values.map f ↔ ∃ k a, m.get k = some a ∧ b = f a := by
  simp only [mem_map, mem_values, eq_comm (a := b)]
  grind

/-- Lookup of a present key finds its entry. -/
theorem has_of_get {m : OrdMap κ α} {k : κ} {a : α} (h : m.get k = some a) :
    m.has k = true :=
  (m.has_iff k).2 ⟨a, h⟩

@[simp]
theorem get_empty : (empty : OrdMap κ α).get k = none := rfl

@[simp]
theorem has_empty : (empty : OrdMap κ α).has k = false := rfl

@[simp]
theorem get_mapVals (f : κ → α → β) (m : OrdMap κ α) (k : κ) :
    (m.mapVals f).get k = (m.get k).map (f k) := by
  refine Option.ext fun b => ?_
  rw [← mem_entries, Option.map_eq_some_iff]
  simp only [mapVals, mem_map, Prod.mk.injEq, Prod.exists]
  constructor
  · rintro ⟨j, a, hmem, rfl, rfl⟩
    exact ⟨a, (m.mem_entries j a).1 hmem, rfl⟩
  · rintro ⟨a, ha, rfl⟩
    exact ⟨k, a, (m.mem_entries k a).2 ha, rfl, rfl⟩

@[simp]
theorem has_mapVals (f : κ → α → β) (m : OrdMap κ α) (k : κ) :
    (m.mapVals f).has k = m.has k := by
  simp [has]

/-- Set the value at a key: a present key keeps its place, a new key goes to the end. -/
def set (k : κ) (a : α) : OrdMap κ α :=
  if h : m.has k = true then
    m.mapVals fun j b => if j = k then a else b
  else
    ⟨m.entries ++ [(k, a)], by
      have hk : k ∉ m.entries.map Prod.fst :=
        (m.get_eq_none_iff k).1 ((m.has_eq_false_iff k).1 (by simpa using h))
      rw [map_append, nodup_append]
      refine ⟨m.nodup, nodup_singleton _, fun x hx y hy => ?_⟩
      rintro rfl
      exact hk (by simpa [mem_singleton.1 hy] using hx)⟩

/-- Lookups after a key was set. -/
theorem get_set (k j : κ) (a : α) :
    (m.set k a).get j = if j = k then some a else m.get j := by
  unfold set
  split
  next h =>
    rw [get_mapVals]
    by_cases hj : j = k
    · obtain ⟨b, hb⟩ := (m.has_iff k).1 h
      simp [hj, hb]
    · simp [hj]
  next h =>
    have hnone : m.get k = none := (m.has_eq_false_iff k).1 (by simpa using h)
    refine Option.ext fun b => ?_
    rw [← mem_entries]
    simp only [mem_append, mem_entries, mem_singleton, Prod.mk.injEq]
    by_cases hj : j = k
    · subst hj
      simp [hnone, eq_comm]
    · simp [hj]

@[simp]
theorem get_set_self (a : α) : (m.set k a).get k = some a := by
  simp [get_set]

theorem get_set_cases {m : OrdMap κ α} {k j : κ} {a b : α} (h : (m.set k a).get j = some b) :
    j = k ∧ b = a ∨ j ≠ k ∧ m.get j = some b := by
  rw [get_set] at h
  split at h
  next heq => exact .inl ⟨heq, (Option.some.inj h).symm⟩
  next hne => exact .inr ⟨hne, h⟩

theorem get_set_ne {k j : κ} (a : α) (h : j ≠ k) :
    (m.set k a).get j = m.get j := by
  simp [get_set, h]

@[simp]
theorem has_set (k j : κ) (a : α) :
    (m.set k a).has j = (decide (j = k) || m.has j) := by
  by_cases h : j = k <;> simp [has, get_set, h]

theorem has_set_iff {m : OrdMap κ α} {k j : κ} {a : α} :
    (m.set k a).has j = true ↔ j = k ∨ m.has j = true := by
  rw [has_set, Bool.or_eq_true, decide_eq_true_eq]

theorem entries_set_of_has {m : OrdMap κ α} {k : κ} (h : m.has k = true) (a : α) :
    (m.set k a).entries = m.entries.map fun e => (e.1, if e.1 = k then a else e.2) := by
  rw [set, dif_pos h]
  rfl

/-- A present key keeps its place, and a new one goes to the end. -/
theorem keys_set (a : α) :
    (m.set k a).keys = if m.has k = true then m.keys else m.keys ++ [k] := by
  unfold set keys
  split
  next h => simp [mapVals, Function.comp_def]
  next h => simp

/-- Which keys there are, and in which order, does not depend on the values. -/
theorem keys_set_congr {m : OrdMap κ α} {m' : OrdMap κ β} (h : m'.keys = m.keys) (k : κ) (a : α)
    (b : β) : (m'.set k b).keys = (m.set k a).keys := by
  have hhas : m'.has k = m.has k := by
    rw [Bool.eq_iff_iff, ← mem_keys, ← mem_keys, h]
  rw [keys_set, keys_set, h, hhas]

/-- The first key stays the first one. -/
theorem head?_keys_set {m : OrdMap κ α} {j : κ} (h : m.keys.head? = some j) (k : κ) (a : α) :
    (m.set k a).keys.head? = some j := by
  rw [keys_set]
  split
  · exact h
  · rw [List.head?_append, h]
    rfl

/-- Remove a key. -/
def delete (k : κ) : OrdMap κ α where
  entries := m.entries.filter fun e => e.1 ≠ k
  nodup := m.nodup.sublist (filter_sublist.map _)

/-- Lookups after a key was removed. -/
theorem get_delete (k j : κ) :
    (m.delete k).get j = if j = k then none else m.get j := by
  refine Option.ext fun b => ?_
  rw [← mem_entries]
  simp only [delete, mem_filter, mem_entries, decide_not, Bool.not_eq_true',
    decide_eq_false_iff_not]
  by_cases hj : j = k <;> simp [hj]

@[simp]
theorem get_delete_self : (m.delete k).get k = none := by
  simp [get_delete]

theorem get_delete_ne {k j : κ} (h : j ≠ k) :
    (m.delete k).get j = m.get j := by
  simp [get_delete, h]

@[simp]
theorem has_delete (k j : κ) :
    (m.delete k).has j = (!decide (j = k) && m.has j) := by
  by_cases h : j = k <;> simp [has, get_delete, h]

theorem has_delete_iff {m : OrdMap κ α} {k j : κ} :
    (m.delete k).has j = true ↔ j ≠ k ∧ m.has j = true := by
  rw [has_delete, Bool.and_eq_true, Bool.not_eq_true', decide_eq_false_iff_not]

/-- Set the entries of a list one after another, starting from a map. -/
def setAll (es : List (κ × α)) : OrdMap κ α :=
  es.foldl (fun m e => m.set e.1 e.2) m

/-- The map built by setting the entries of a list one after another. -/
def ofList (es : List (κ × α)) : OrdMap κ α := empty.setAll es

@[simp]
theorem setAll_nil : m.setAll [] = m := rfl

@[simp]
theorem setAll_cons (e : κ × α) (es : List (κ × α)) :
    m.setAll (e :: es) = (m.set e.1 e.2).setAll es := rfl

/-- What a key holds after a list was set depends on the list and on what it held before. -/
theorem get_setAll_congr {m m' : OrdMap κ α} {k : κ} (h : m'.get k = m.get k)
    (es : List (κ × α)) : (m'.setAll es).get k = (m.setAll es).get k := by
  induction es generalizing m m' with
  | nil => exact h
  | cons e es ih =>
    refine ih ?_
    rw [get_set, get_set, h]

/-- The last value that a list has for a key. -/
def lastOf (es : List (κ × α)) (k : κ) : Option α :=
  (es.reverse.find? fun e => e.1 = k).map Prod.snd

theorem lastOf_cons (e : κ × α) (es : List (κ × α)) (k : κ) :
    lastOf (e :: es) k = (lastOf es k).or (if k = e.1 then some e.2 else none) := by
  rw [lastOf, reverse_cons, List.find?_append, Option.map_or]
  congr 1
  by_cases h : k = e.1
  · simp [h]
  · simpa [h] using fun heq : e.1 = k => h heq.symm

theorem get_setAll (es : List (κ × α)) (k : κ) :
    (m.setAll es).get k = (lastOf es k).or (m.get k) := by
  induction es generalizing m with
  | nil => rfl
  | cons e es ih =>
    rw [setAll_cons, ih, lastOf_cons, get_set, Option.or_assoc]
    congr 1
    split <;> rfl

/-- Setting a list of entries does not touch other keys. -/
theorem get_setAll_of_not_mem (es : List (κ × α)) {k : κ}
    (h : ∀ e ∈ es, e.1 ≠ k) : (m.setAll es).get k = m.get k := by
  induction es generalizing m with
  | nil => rfl
  | cons e es ih =>
    rw [setAll_cons, ih _ fun x hx => h x (mem_cons_of_mem _ hx)]
    exact m.get_set_ne _ (h e mem_cons_self).symm

/-- Setting a list whose entries agree on a key present in it gives that key their value. -/
theorem get_setAll_of_mem (es : List (κ × α)) {k : κ} {a : α}
    (hmem : (k, a) ∈ es) (huniq : ∀ b, (k, b) ∈ es → b = a) :
    (m.setAll es).get k = some a := by
  induction es generalizing m with
  | nil => cases hmem
  | cons e es ih =>
    rw [setAll_cons]
    by_cases htail : ∃ b, (k, b) ∈ es
    · obtain ⟨b, hb⟩ := htail
      have hba : b = a := huniq b (mem_cons_of_mem _ hb)
      exact ih _ (hba ▸ hb) fun c hc => huniq c (mem_cons_of_mem _ hc)
    · have hhead : e = (k, a) := by
        rcases mem_cons.1 hmem with h | h
        · exact h.symm
        · exact absurd ⟨a, h⟩ htail
      rw [get_setAll_of_not_mem _ _ fun x hx hxk => htail ⟨x.2, hxk ▸ hx⟩, hhead]
      simp

/-- Every key of a map built from a list comes from the list. -/
theorem exists_mem_of_get_setAll (es : List (κ × α)) {k : κ} {a : α}
    (h : (m.setAll es).get k = some a) : (k, a) ∈ es ∨ m.get k = some a := by
  induction es generalizing m with
  | nil => exact .inr h
  | cons e es ih =>
    rcases ih _ (by simpa using h) with hmem | hget
    · exact .inl (mem_cons_of_mem _ hmem)
    · rw [get_set] at hget
      split at hget
      next hk =>
        left
        rw [hk, ← Option.some.inj hget]
        exact mem_cons_self
      · exact .inr hget

theorem head?_keys_setAll {m : OrdMap κ α} {j : κ} (h : m.keys.head? = some j)
    (es : List (κ × α)) : (m.setAll es).keys.head? = some j := by
  induction es generalizing m with
  | nil => exact h
  | cons e es ih => exact ih (head?_keys_set h e.1 e.2)

/-- Entries with new keys go to the end. -/
theorem entries_setAll (es : List (κ × α))
    (h : ((m.entries ++ es).map Prod.fst).Nodup) : (m.setAll es).entries = m.entries ++ es := by
  induction es generalizing m with
  | nil => simp
  | cons e es ih =>
    have hnew : ¬m.has e.1 = true := by
      rw [← m.mem_keys]
      intro hmem
      rw [map_append, nodup_append] at h
      exact h.2.2 e.1 hmem e.1 (by simp) rfl
    have hset : (m.set e.1 e.2).entries = m.entries ++ [e] := by rw [set, dif_neg hnew]
    rw [setAll_cons, ih _ (by rwa [hset, append_assoc]), hset, append_assoc]
    rfl

/-- A map is built again from its entries. -/
theorem ofList_entries : ofList m.entries = m := by
  have h : (ofList m.entries).entries = m.entries := entries_setAll empty m.entries m.nodup
  obtain ⟨entries, nodup⟩ := m
  cases hbuilt : ofList entries with
  | mk =>
    rw [hbuilt] at h
    subst h
    rfl

/-- A list with one value for each of its keys builds the map with these entries. -/
theorem get_ofList (es : List (κ × α))
    (huniq : ∀ k a b, (k, a) ∈ es → (k, b) ∈ es → a = b) (k : κ) (a : α) :
    (ofList es).get k = some a ↔ (k, a) ∈ es := by
  constructor
  · intro h
    exact (exists_mem_of_get_setAll _ _ h).resolve_right (by simp)
  · intro h
    exact get_setAll_of_mem _ _ h fun b hb => huniq k b a hb h

/-- The keys present after setting a list of entries. -/
theorem has_setAll (es : List (κ × α)) (k : κ) :
    (m.setAll es).has k = true ↔ k ∈ es.map Prod.fst ∨ m.has k = true := by
  induction es generalizing m with
  | nil => simp
  | cons e es ih =>
    rw [setAll_cons, ih, has_set]
    simp only [map_cons, mem_cons, Bool.or_eq_true, decide_eq_true_eq]
    tauto

/-- A list that sets the one entry of a map again, and others, puts these behind it. -/
theorem entries_setAll_single {k : κ} {a : α} {es es' : List (κ × α)}
    (h : ((es ++ (k, a) :: es').map Prod.fst).Nodup) (b : α) :
    ((empty.set k b).setAll (es ++ (k, a) :: es')).entries = (k, a) :: (es ++ es') := by
  have hperm : ((es ++ (k, a) :: es').map Prod.fst).Perm (((k, a) :: (es ++ es')).map Prod.fst) :=
    perm_middle.map _
  have hnodup := hperm.nodup_iff.1 h
  have hfront : ((empty.set k b).setAll es).entries = (k, b) :: es := by
    refine entries_setAll (empty.set k b) es (List.Nodup.sublist ?_ hnodup)
    exact ((sublist_append_left es es').cons_cons _).map _
  have hset : (((empty.set k b).setAll es).set k a).entries = (k, a) :: es := by
    have hhas : ((empty.set k b).setAll es).has k = true := by
      rw [has_setAll]
      exact .inr (by simp)
    have hothers : ∀ e ∈ es, e.1 ≠ k := by
      intro e he heq
      rw [map_cons, nodup_cons] at hnodup
      exact hnodup.1 (mem_map.2 ⟨e, mem_append_left _ he, heq⟩)
    rw [entries_set_of_has hhas, hfront, map_cons, if_pos rfl]
    congr 1
    refine (map_congr_left fun e he => ?_).trans (map_id _)
    rw [if_neg (hothers e he)]
    rfl
  rw [show (empty.set k b).setAll (es ++ (k, a) :: es') =
      (((empty.set k b).setAll es).set k a).setAll es' by simp [setAll],
    entries_setAll, hset, cons_append]
  rw [hset]
  exact hnodup

/-- A map is built again from its entries in any order, over one that has no other keys. -/
theorem get_setAll_of_perm {m base : OrdMap κ α} {es : List (κ × α)} (hperm : es.Perm m.entries)
    (hbase : ∀ k, base.has k = true → m.has k = true) (k : κ) :
    (base.setAll es).get k = m.get k := by
  cases hk : m.get k with
  | some a =>
    refine get_setAll_of_mem _ _ (hperm.mem_iff.2 ((m.mem_entries k a).2 hk)) fun b hb => ?_
    exact Option.some.inj (((m.mem_entries k b).1 (hperm.mem_iff.1 hb)).symm.trans hk)
  | none =>
    have hnone : m.has k = false := (m.has_eq_false_iff k).2 hk
    rw [get_setAll_of_not_mem, ← has_eq_false_iff]
    · by_contra hhas
      rw [hbase k (by simpa using hhas)] at hnone
      cases hnone
    · rintro ⟨j, a⟩ he rfl
      rw [(m.mem_entries _ _).1 (hperm.mem_iff.1 he)] at hk
      cases hk

/-- The keys of a map built from a list. -/
theorem has_ofList (es : List (κ × α)) (k : κ) :
    (ofList es).has k = true ↔ k ∈ es.map Prod.fst := by
  rw [ofList, has_setAll]
  simp

/-- Keep the keys with a property. -/
def filterKeys (q : κ → Bool) (m : OrdMap κ α) : OrdMap κ α where
  entries := m.entries.filter fun e => q e.1
  nodup := m.nodup.sublist (filter_sublist.map _)

theorem get_filterKeys (q : κ → Bool) (m : OrdMap κ α) (k : κ) :
    (m.filterKeys q).get k = if q k = true then m.get k else none := by
  refine Option.ext fun b => ?_
  rw [← mem_entries]
  simp only [filterKeys, mem_filter, mem_entries]
  by_cases hk : q k = true <;> simp [hk]

@[simp]
theorem has_filterKeys (q : κ → Bool) (m : OrdMap κ α) (k : κ) :
    (m.filterKeys q).has k = (q k && m.has k) := by
  by_cases hk : q k = true <;> simp [has, get_filterKeys, hk]

omit [DecidableEq κ] in
theorem keys_filterKeys (q : κ → Bool) (m : OrdMap κ α) :
    (m.filterKeys q).keys = m.keys.filter q := by
  simp [keys, filterKeys, filter_map, Function.comp_def]

/-- Set every entry again, one after another, under a new key and with a new value. -/
def rekey (f : κ → κ) (g : κ → α → β) (m : OrdMap κ α) : OrdMap κ β :=
  ofList (m.entries.map fun e => (f e.1, g e.1 e.2))

theorem has_rekey (f : κ → κ) (g : κ → α → β) (m : OrdMap κ α) (j : κ) :
    (m.rekey f g).has j = true ↔ ∃ k, m.has k = true ∧ f k = j := by
  simp only [rekey, has_ofList, map_map, Function.comp_def, mem_map]
  constructor
  · rintro ⟨e, he, rfl⟩
    exact ⟨e.1, has_of_get ((m.mem_entries e.1 e.2).1 he), rfl⟩
  · rintro ⟨k, hk, rfl⟩
    obtain ⟨a, ha⟩ := (m.has_iff k).1 hk
    exact ⟨(k, a), (m.mem_entries k a).2 ha, rfl⟩

/-- Every entry found after setting all of them again was there before. -/
theorem exists_of_get_rekey {f : κ → κ} {g : κ → α → β} {m : OrdMap κ α} {j : κ} {b : β}
    (h : (m.rekey f g).get j = some b) : ∃ k a, m.get k = some a ∧ f k = j ∧ g k a = b := by
  have hmem := (exists_mem_of_get_setAll _ _ h).resolve_right (by simp)
  obtain ⟨e, he, heq⟩ := mem_map.1 hmem
  obtain ⟨hkey, hval⟩ := Prod.mk.inj heq
  exact ⟨e.1, e.2, (m.mem_entries e.1 e.2).1 he, hkey, hval⟩

/-- When no two keys get the same new key, exactly the old entries are found again. -/
theorem get_rekey (f : κ → κ) (g : κ → α → β) (m : OrdMap κ α)
    (hinj : ∀ k k', m.has k = true → m.has k' = true → f k = f k' → k = k') (j : κ) (b : β) :
    (m.rekey f g).get j = some b ↔ ∃ k a, m.get k = some a ∧ f k = j ∧ g k a = b := by
  have hmem : ∀ j b, (j, b) ∈ m.entries.map (fun e => (f e.1, g e.1 e.2)) ↔
      ∃ k a, m.get k = some a ∧ f k = j ∧ g k a = b := by
    intro j b
    simp only [mem_map, Prod.exists, Prod.mk.injEq, mem_entries]
  rw [rekey, get_ofList, hmem]
  intro j b c hb hc
  obtain ⟨k, a, hk, hfk, rfl⟩ := (hmem j b).1 hb
  obtain ⟨k', a', hk', hfk', rfl⟩ := (hmem j c).1 hc
  obtain rfl := hinj k k' (has_of_get hk) (has_of_get hk') (hfk.trans hfk'.symm)
  rw [Option.some.inj (hk.symm.trans hk')]

end Lookup

section Count

variable [DecidableEq κ] (p : α → Bool)

/-- Removing a key removes its value from the count. -/
theorem countVals_delete (m : OrdMap κ α) {k : κ} {a : α} (h : m.get k = some a) :
    (m.delete k).countVals p + (p a).toNat = m.countVals p := by
  have hmem := (m.mem_entries k a).2 h
  obtain ⟨es, hnd⟩ := m
  simp only [countVals, delete] at hmem ⊢
  clear h
  induction es with
  | nil => cases hmem
  | cons e es ih =>
    rw [map_cons, nodup_cons] at hnd
    rcases mem_cons.1 hmem with rfl | htail
    · have hkeep : es.filter (fun e => decide (e.1 ≠ k)) = es := by
        refine filter_eq_self.2 fun x hx => ?_
        have hne : x.1 ≠ k := fun hxk => hnd.1 (mem_map.2 ⟨x, hx, hxk⟩)
        simpa using hne
      rw [filter_cons_of_neg (by simp), hkeep, countP_cons]
      cases p a <;> simp
    · have hne : e.1 ≠ k := fun hek =>
        hnd.1 (mem_map.2 ⟨_, htail, hek.symm⟩)
      rw [filter_cons_of_pos (by simpa using hne), countP_cons, countP_cons,
        ← ih hnd.2 htail]
      omega

/-- Setting a new key adds its value to the count. -/
theorem countVals_set_of_get_none (m : OrdMap κ α) {k : κ} (a : α) (h : m.get k = none) :
    (m.set k a).countVals p = m.countVals p + (p a).toNat := by
  have hhas : ¬m.has k = true := by simp [has, h]
  simp only [set, hhas, countVals]
  simp [countP_append, countP_cons]
  cases p a <;> rfl

/-- Setting a present key replaces its value in the count. -/
theorem countVals_set_of_get_some (m : OrdMap κ α) {k : κ} (a : α) {b : α}
    (h : m.get k = some b) :
    (m.set k a).countVals p + (p b).toNat = m.countVals p + (p a).toNat := by
  have hhas : m.has k = true := has_of_get h
  have hmem := (m.mem_entries k b).2 h
  simp only [set, hhas, dite_true]
  obtain ⟨es, hnd⟩ := m
  simp only [countVals, mapVals, countP_map, Function.comp_def] at hmem ⊢
  clear h hhas
  induction es with
  | nil => cases hmem
  | cons e es ih =>
    rw [map_cons, nodup_cons] at hnd
    rw [countP_cons, countP_cons]
    rcases mem_cons.1 hmem with rfl | htail
    · have hrest : es.countP (fun e => p (if e.1 = k then a else e.2)) =
          es.countP fun e => p e.2 := by
        refine countP_congr fun x hx => ?_
        have hne : x.1 ≠ k := fun hxk => hnd.1 (mem_map.2 ⟨x, hx, hxk⟩)
        simp [hne]
      rw [hrest]
      cases ha : p a <;> cases hb : p b <;> simp [ha]
    · have hne : e.1 ≠ k := fun hek =>
        hnd.1 (mem_map.2 ⟨_, htail, hek.symm⟩)
      have := ih hnd.2 htail
      simp only [hne, if_false]
      omega

/-- Replacing values by values with the same property keeps the count. -/
theorem countVals_mapVals {q : β → Bool} (f : κ → α → β) (m : OrdMap κ α)
    (h : ∀ k a, m.get k = some a → q (f k a) = p a) :
    (m.mapVals f).countVals q = m.countVals p := by
  simp only [countVals, mapVals, countP_map, Function.comp_def]
  refine countP_congr fun e he => ?_
  rw [h e.1 e.2 ((m.mem_entries _ _).1 he)]

end Count

end OrdMap

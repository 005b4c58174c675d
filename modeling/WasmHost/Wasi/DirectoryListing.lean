import Mathlib.Order.Defs.LinearOrder
import WasmHost.Lib.LineReader
import WasmHost.Wasi.Mount

/-!
# Directory listings

What `directoryEntries` finds among the keys of a mount. A name is an entry of a directory if a
key is the name in the directory or lies below it, and then a directory unless it is a file only.

* `Mount.listing_directoryEntries_iff`: the listing is that, unless a directory has a key with no
  name behind the slash.
-/

namespace WasmHost

open OrdMap SepPath List

/-! ### Names -/

theorem utf16Units_cons (c : Char) (t : Text) :
    Mount.utf16Units (c :: t) =
      (if c.toNat < 0x10000 then [c.toNat]
        else [0xD800 + (c.toNat - 0x10000) / 0x400, 0xDC00 + (c.toNat - 0x10000) % 0x400]) ++
        Mount.utf16Units t := rfl

theorem charToNat_inj {c d : Char} (h : c.toNat = d.toNat) : c = d :=
  Char.ext (UInt32.toNat_inj.1 h)

/-- A scalar value is no surrogate. -/
theorem charToNat_valid (c : Char) :
    c.toNat < 0xD800 ∨ (0xDFFF < c.toNat ∧ c.toNat < 0x110000) := c.valid

theorem utf16Units_injective {t u : Text} (h : Mount.utf16Units t = Mount.utf16Units u) :
    t = u := by
  induction t generalizing u with
  | nil =>
    cases u with
    | nil => rfl
    | cons =>
      rw [utf16Units_cons] at h
      split at h <;> cases h
  | cons c t ih =>
    cases u with
    | nil =>
      rw [utf16Units_cons] at h
      split at h <;> cases h
    | cons d u =>
      have hc := charToNat_valid c
      have hd := charToNat_valid d
      rw [utf16Units_cons, utf16Units_cons] at h
      -- the first unit tells how many there are
      split at h <;> split at h <;>
        simp only [cons_append, nil_append, List.cons.injEq] at h
      · rw [charToNat_inj h.1, ih h.2]
      · omega
      · omega
      · rw [charToNat_inj (show c.toNat = d.toNat by omega), ih h.2.2]

namespace Mount

variable {β : Type} {m : Mount β} {files : List Text}

/-- The prefix of the keys in a directory. -/
def keyPrefix (base : Text) : Text := if base = [] then [] else base ++ ['/']

theorem joinKey_eq_keyPrefix (base name : Text) : joinKey base name = keyPrefix base ++ name := by
  unfold joinKey keyPrefix
  split
  · rfl
  · rw [append_assoc, singleton_append]

/-! ### The order -/

variable {a b base name : Text} {entries : OrdMap Text Filetype}

theorem compareStringsLe_iff : compareStringsLe a b = true ↔ ¬utf16Units b < utf16Units a := by
  rw [compareStringsLe, Bool.not_eq_true', decide_eq_false_iff_not]

theorem compareStringsLe_trans {c : Text} (hab : compareStringsLe a b = true)
    (hbc : compareStringsLe b c = true) : compareStringsLe a c = true := by
  rw [compareStringsLe_iff] at hab hbc ⊢
  exact List.not_lt.2 (List.le_trans (List.not_lt.1 hab) (List.not_lt.1 hbc))

theorem compareStringsLe_total (a b : Text) :
    (compareStringsLe a b || compareStringsLe b a) = true := by
  rw [Bool.or_eq_true, compareStringsLe_iff, compareStringsLe_iff]
  exact (List.le_total (utf16Units a) (utf16Units b)).imp List.not_lt.2 List.not_lt.2

/-- Different names that are in order are strictly in order. -/
theorem utf16Units_lt (hle : compareStringsLe a b = true) (hne : a ≠ b) :
    utf16Units a < utf16Units b := by
  rcases List.le_iff_lt_or_eq.1 (List.not_lt.1 (compareStringsLe_iff.1 hle)) with h | h
  · exact h
  · exact absurd (utf16Units_injective h) hne

/-- The entries are in the order of their names, which are all different. -/
theorem pairwise_directoryEntries (m : Mount β) (base : Text) :
    (m.directoryEntries base).Pairwise fun a b => utf16Units a.name < utf16Units b.name := by
  have hnames : ((m.directoryEntries base).map DirEntry.name).Nodup := by
    refine ((mergeSort_perm _ _).map DirEntry.name).nodup_iff.2 ?_
    rw [map_map]
    exact (m.entryMap base).nodup
  have hsorted := @pairwise_mergeSort DirEntry
    (fun left right => compareStringsLe left.name right.name)
    (fun a b c => compareStringsLe_trans) (fun a b => compareStringsLe_total a.name b.name)
    ((m.entryMap base).entries.map fun e => (⟨e.1, e.2⟩ : DirEntry))
  exact (hsorted.and (pairwise_map.1 hnames)).imp fun h => utf16Units_lt h.1 h.2

theorem mem_directoryEntries {e : DirEntry} :
    e ∈ m.directoryEntries base ↔ (m.entryMap base).get e.name = some e.filetype := by
  rw [directoryEntries, mem_mergeSort, ← mem_entries, mem_map]
  constructor
  · rintro ⟨x, hx, rfl⟩
    exact hx
  · intro h
    exact ⟨_, h, rfl⟩

/-! ### The names among the keys -/

variable {pre : Text}

/-- A directory gives its first name behind the prefix. -/
theorem get_addDirEntry {dir : Text} :
    (addDirEntry pre entries dir).get name =
      if dir ≠ [] ∧ dir ≠ pre ∧ '/' ∉ name ∧ SepPath.AtOrBelow '/' (pre ++ name) dir then
        some .directory
      else entries.get name := by
  unfold addDirEntry
  split
  next h =>
    rw [if_neg]
    rintro ⟨hne, -, -, hat⟩
    exact h.elim hne fun hpre => hpre ((prefix_append _ _).trans hat.isPrefix)
  next h =>
    obtain ⟨hne, rest, rfl⟩ := not_or.1 h |>.imp_right not_not.1
    obtain ⟨first, tail, hsplit, hat, -⟩ := @exists_splitOn_eq_cons _ '/' _ _ rest
    simp only [drop_left, atOrBelow_append_right_iff, hat, hsplit]
    split
    next hrest => simp [hrest]
    next hrest => simp [get_set, hne, hrest, eq_comm]

theorem get_addFileEntry {path : Text} :
    (addFileEntry pre entries path).get name =
      if name ≠ [] ∧ '/' ∉ name ∧ SepPath.Below '/' (pre ++ name) path then some .directory
      else if name ≠ [] ∧ '/' ∉ name ∧ path = pre ++ name then
        some ((entries.get name).getD .regularFile)
      else entries.get name := by
  unfold addFileEntry
  split
  next hpre =>
    rw [if_neg, if_neg]
    · rintro ⟨-, -, rfl⟩
      exact hpre (prefix_append _ _)
    · rintro ⟨-, -, hbelow⟩
      exact hpre ((prefix_append _ _).trans hbelow.atOrBelow.isPrefix)
  next h =>
    obtain ⟨rest, rfl⟩ := not_not.1 h
    obtain ⟨first, tail, hsplit, hat, hbelow⟩ := @exists_splitOn_eq_cons _ '/' _ _ rest
    have hsame : ∀ name, '/' ∉ name ∧ pre ++ rest = pre ++ name ↔ name = first ∧ tail = [] := by
      intro name
      rw [append_cancel_left_eq]
      constructor
      · rintro ⟨hname, rfl⟩
        have hfirst := (hat rest).1 ⟨hname, atOrBelow_self _⟩
        refine ⟨hfirst, by_contra fun htail => ?_⟩
        exact not_below_self _ ((hbelow rest).2 ⟨hfirst, htail⟩).2
      · rintro ⟨rfl, htail⟩
        obtain ⟨hname, rfl | hin⟩ := (hat name).2 rfl
        · exact ⟨hname, rfl⟩
        · exact absurd htail ((hbelow name).1 ⟨hname, hin⟩).2
    simp only [drop_left, below_append_right_iff, hbelow, hsame, hsplit]
    by_cases hname : name = first
    · subst hname
      split
      next hnil => simp [hnil]
      next hne =>
        split
        next htail => simp [hne, htail]
        next htail =>
          cases hget : entries.get name with
          | none | some => simp [hne, htail, OrdMap.has, hget]
    · -- another name gets nothing
      have hother : ∀ t, (entries.set first t).get name = entries.get name := fun t =>
        get_set_ne _ _ hname
      simp only [hname, false_and, and_false, if_false]
      split
      · rfl
      split
      · exact hother _
      split
      · rfl
      · exact hother _

theorem get_addDirEntries {dirs : List Text} {t : Filetype} :
    (dirs.foldl (addDirEntry pre) OrdMap.empty).get name = some t ↔
      t = .directory ∧ ∃ dir ∈ dirs, dir ≠ [] ∧ dir ≠ pre ∧ '/' ∉ name ∧
        SepPath.AtOrBelow '/' (pre ++ name) dir := by
  induction dirs using List.reverseRecOn with
  | nil => simp
  | append_singleton =>
    rw [foldl_append, foldl_cons, foldl_nil, get_addDirEntry]
    split <;> grind

theorem get_addFileEntries (hname : name ≠ []) (hsep : '/' ∉ name) {D : Prop}
    (hentries : ∀ t, entries.get name = some t ↔ t = .directory ∧ D) (t : Filetype) :
    (files.foldl (addFileEntry pre) entries).get name = some t ↔
      (t = .directory ∧ (D ∨ ∃ path ∈ files, SepPath.Below '/' (pre ++ name) path)) ∨
      (t = .regularFile ∧ ¬(D ∨ ∃ path ∈ files, SepPath.Below '/' (pre ++ name) path) ∧
        pre ++ name ∈ files) := by
  induction files using List.reverseRecOn generalizing t with
  | nil => simp [hentries]
  | append_singleton files path ih =>
    rw [foldl_append, foldl_cons, foldl_nil, get_addFileEntry]
    split
    next h =>
      -- the key lies below the name
      have hbelow : ∃ p ∈ files ++ [path], SepPath.Below '/' (pre ++ name) p :=
        ⟨path, by simp, h.2.2⟩
      simp only [hbelow, or_true, and_true, not_true, false_and, and_false, or_false,
        Option.some.injEq, eq_comm]
    next h =>
      have hnot : ¬SepPath.Below '/' (pre ++ name) path := fun hp => h ⟨hname, hsep, hp⟩
      have hsame : (∃ p ∈ files ++ [path], SepPath.Below '/' (pre ++ name) p) ↔
          ∃ p ∈ files, SepPath.Below '/' (pre ++ name) p := by
        constructor
        · rintro ⟨p, hp, hbelow⟩
          rcases mem_append.1 hp with hp | hp
          · exact ⟨p, hp, hbelow⟩
          · exact absurd (mem_singleton.1 hp ▸ hbelow) hnot
        · rintro ⟨p, hp, hbelow⟩
          exact ⟨p, mem_append_left _ hp, hbelow⟩
      rw [hsame]
      split
      next heq =>
        -- the key is the name, which stays what it was
        have hin : pre ++ name ∈ files ++ [path] := by simp [heq.2.2]
        cases hget : (files.foldl (addFileEntry pre) entries).get name with
        | none =>
          have hnone := fun t => (ih t).not.1 (by rw [hget]; simp)
          simp only [Option.getD_none, Option.some.injEq]
          have := hnone .directory
          grind
        | some u =>
          have hsome := (ih u).1 hget
          simp only [Option.getD_some, Option.some.injEq]
          grind
      next heq =>
        have hin : pre ++ name ∈ files ++ [path] ↔ pre ++ name ∈ files := by
          rw [mem_append, mem_singleton, or_iff_left]
          exact fun h => heq ⟨hname, hsep, h.symm⟩
        rw [ih t, hin]

/-- No entry without a name comes from a file. -/
theorem get_addFileEntries_of_not (h : ¬(name ≠ [] ∧ '/' ∉ name)) :
    (files.foldl (addFileEntry pre) entries).get name = entries.get name := by
  induction files using List.reverseRecOn with
  | nil => rfl
  | append_singleton files path ih =>
    rw [foldl_append, foldl_cons, foldl_nil, get_addFileEntry, if_neg (by tauto),
      if_neg (by tauto), ih]

/-! ### Listings -/

/-- A key is the child of a directory, or lies below it. -/
def HasChild (m : Mount β) (base name : Text) : Prop :=
  name ≠ [] ∧ '/' ∉ name ∧ ∃ key, (m.files.has key = true ∨ m.dirs.has key = true) ∧
    SepPath.AtOrBelow '/' (joinKey base name) key

/-- A child that is more than a file. -/
def IsDirectoryChild (m : Mount β) (base name : Text) : Prop :=
  (∃ dir, m.dirs.has dir = true ∧ SepPath.AtOrBelow '/' (joinKey base name) dir) ∨
    ∃ path, m.files.has path = true ∧ SepPath.Below '/' (joinKey base name) path

/-- The listing of a directory: its children, each once, in the order of their names. -/
structure Listing (m : Mount β) (base : Text) (entries : List DirEntry) : Prop where
  sorted : entries.Pairwise fun a b => utf16Units a.name < utf16Units b.name
  listed : ∀ name, (∃ e ∈ entries, e.name = name) ↔ m.HasChild base name
  typed : ∀ e ∈ entries, e.filetype = .directory ∧ m.IsDirectoryChild base e.name ∨
    e.filetype = .regularFile ∧ ¬m.IsDirectoryChild base e.name

theorem get_entryMap_iff (hname : name ≠ []) (hsep : '/' ∉ name) (t : Filetype) :
    (m.entryMap base).get name = some t ↔
      t = .directory ∧ m.IsDirectoryChild base name ∨
        t = .regularFile ∧ ¬m.IsDirectoryChild base name ∧
          m.files.has (joinKey base name) = true := by
  have hdirs : ∀ t, ((m.dirs.keys.foldl (addDirEntry (keyPrefix base)) OrdMap.empty).get name =
      some t) ↔ t = .directory ∧
        ∃ dir, m.dirs.has dir = true ∧ SepPath.AtOrBelow '/' (joinKey base name) dir := by
    intro t
    rw [get_addDirEntries, joinKey_eq_keyPrefix]
    refine and_congr_right fun _ => exists_congr fun dir => ?_
    rw [OrdMap.mem_keys]
    refine and_congr_right fun _ => ⟨fun h => h.2.2.2, fun hat => ⟨?_, ?_, hsep, hat⟩⟩
    · rintro rfl
      exact hname (append_eq_nil_iff.1 (prefix_nil.1 hat.isPrefix)).2
    · rintro rfl
      have hlength := hat.isPrefix.length_le
      rw [length_append] at hlength
      exact hname (length_eq_zero_iff.1 (by omega))
  have hfiles := @get_addFileEntries m.files.keys name _ (keyPrefix base) hname hsep _ hdirs t
  simp only [OrdMap.mem_keys, ← joinKey_eq_keyPrefix] at hfiles
  exact hfiles

/-- The only entry without a name is a directory with no name behind the slash. -/
theorem get_entryMap_of_not (h : ¬(name ≠ [] ∧ '/' ∉ name)) :
    ((m.entryMap base).get name).isSome = true ↔
      name = [] ∧ ∃ dir, m.dirs.has dir = true ∧ SepPath.Below '/' (keyPrefix base) dir := by
  have hfiles : (m.entryMap base).get name =
      (m.dirs.keys.foldl (addDirEntry (keyPrefix base)) OrdMap.empty).get name :=
    get_addFileEntries_of_not h
  rw [hfiles, Option.isSome_iff_exists]
  simp only [get_addDirEntries, exists_eq_left, OrdMap.mem_keys]
  constructor
  · rintro ⟨dir, hdir, -, hpre, hsep, hat⟩
    obtain rfl : name = [] := by_contra fun hne => h ⟨hne, hsep⟩
    rw [append_nil] at hat
    exact ⟨rfl, dir, hdir, hat.resolve_left hpre⟩
  · rintro ⟨rfl, dir, hdir, hbelow⟩
    have hne : dir ≠ [] := fun hnil => by
      rw [hnil] at hbelow
      exact absurd hbelow.length_lt (Nat.not_lt_zero _)
    exact ⟨dir, hdir, hne, hbelow.ne, not_mem_nil, by rw [append_nil]; exact hbelow.atOrBelow⟩

theorem hasChild_iff :
    m.HasChild base name ↔ name ≠ [] ∧ '/' ∉ name ∧
      (m.IsDirectoryChild base name ∨ m.files.has (joinKey base name) = true) := by
  refine and_congr_right fun _ => and_congr_right fun _ => ?_
  constructor
  · rintro ⟨key, hfile | hdir, hat⟩
    · rcases hat with rfl | hbelow
      · exact .inr hfile
      · exact .inl (.inr ⟨key, hfile, hbelow⟩)
    · exact .inl (.inl ⟨key, hdir, hat⟩)
  · rintro ((⟨dir, hdir, hat⟩ | ⟨path, hfile, hbelow⟩) | hfile)
    · exact ⟨dir, .inr hdir, hat⟩
    · exact ⟨path, .inl hfile, hbelow.atOrBelow⟩
    · exact ⟨_, .inl hfile, atOrBelow_self _⟩

theorem listed_directoryEntries_iff :
    (∃ e ∈ m.directoryEntries base, e.name = name) ↔
      ((m.entryMap base).get name).isSome = true := by
  rw [Option.isSome_iff_exists]
  constructor
  · rintro ⟨e, he, rfl⟩
    exact ⟨_, mem_directoryEntries.1 he⟩
  · rintro ⟨t, ht⟩
    exact ⟨⟨name, t⟩, mem_directoryEntries.2 ht, rfl⟩

/-- The names of a mount without what its files hold. -/
def keysOnly (m : Mount β) : Mount Unit := ⟨m.files.mapVals fun _ _ => (), m.dirs⟩

/-- A listing is about names. -/
theorem directoryEntries_keysOnly (m : Mount β) (base : Text) :
    m.keysOnly.directoryEntries base = m.directoryEntries base := by
  have hkeys : m.keysOnly.files.keys = m.files.keys := by
    rw [OrdMap.keys, OrdMap.keys, keysOnly, OrdMap.mapVals, map_map]
    rfl
  rw [directoryEntries, entryMap, hkeys]
  rfl

/-- The listing holds the children of the directory, unless a directory of the mount has no name
there. -/
theorem listing_directoryEntries_iff :
    m.Listing base (m.directoryEntries base) ↔
      ∀ dir, m.dirs.has dir = true → ¬SepPath.Below '/' (keyPrefix base) dir := by
  constructor
  · intro h dir hdir hbelow
    have hnil : ¬(([] : Text) ≠ [] ∧ '/' ∉ ([] : Text)) := fun h => h.1 rfl
    have hlisted :=
      listed_directoryEntries_iff.2 ((get_entryMap_of_not hnil).2 ⟨rfl, dir, hdir, hbelow⟩)
    exact ((h.listed []).1 hlisted).1 rfl
  · intro h
    have hchild : ∀ name, ((m.entryMap base).get name).isSome = true ↔ m.HasChild base name := by
      intro name
      rw [hasChild_iff]
      by_cases hname : name ≠ [] ∧ '/' ∉ name
      · rw [Option.isSome_iff_exists]
        simp only [get_entryMap_iff hname.1 hname.2]
        grind
      · rw [get_entryMap_of_not hname]
        constructor
        · rintro ⟨-, dir, hdir, hbelow⟩
          exact absurd hbelow (h dir hdir)
        · rintro ⟨hne, hsep, -⟩
          exact absurd ⟨hne, hsep⟩ hname
    refine ⟨pairwise_directoryEntries m base, fun name => ?_, fun e he => ?_⟩
    · rw [listed_directoryEntries_iff, hchild]
    · have hget := mem_directoryEntries.1 he
      obtain ⟨hne, hsep, -⟩ := (hchild e.name).1 (Option.isSome_iff_exists.2 ⟨_, hget⟩)
      rcases (get_entryMap_iff hne hsep _).1 hget with hdir | ⟨hfile, hnot, -⟩
      · exact .inl hdir
      · exact .inr ⟨hfile, hnot⟩

end Mount

end WasmHost

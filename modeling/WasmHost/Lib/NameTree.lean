import Mathlib.Data.List.Infix
import Mathlib.Tactic.Common

/-!
# Trees of files

A tree of directories and files, by the paths (lists of names) at which something stands. Items,
each a directory or a file at a path, are put into a tree one after another: a file makes the
directories above it and replaces a file in its place, a directory makes itself and those above it.

* `NameTree.Open`: no file stands in the way of a path.
* `NameTree.Settles`: what a list of items comes to where each is accepted.
* `NameTree.Settles.isFile_iff`, `NameTree.Settles.isDirectory_iff`: the nodes of that tree in terms
  of the items.
-/

variable {α β : Type}

/-- What stands at a path. -/
inductive TreeNode (β : Type)
  | directory
  | file (content : β)
  deriving DecidableEq

/-- The content of a file. -/
def TreeNode.content? : TreeNode β → Option β
  | .directory => none
  | .file content => some content

/-- A tree whose root is a directory, and in which whatever there is has a directory above it. -/
structure NameTree (α β : Type) where
  node : List α → Option (TreeNode β)
  root : node [] = some .directory
  parent : ∀ path name, node (path ++ [name]) ≠ none → node path = some .directory

/-- Something at a path. -/
structure TreeItem (α β : Type) where
  path : List α
  node : TreeNode β

namespace TreeItem

open List

def IsFile (e : TreeItem α β) : Prop := ∃ content, e.node = .file content

def IsDirectory (e : TreeItem α β) : Prop := e.node = .directory

theorem IsFile.not_isDirectory {e : TreeItem α β} (h : e.IsFile) : ¬e.IsDirectory := by
  obtain ⟨content, hnode⟩ := h
  intro hdirectory
  rw [IsDirectory, hnode] at hdirectory
  cases hdirectory

end TreeItem

/-- A path is strictly above another one. -/
def StrictlyAbove (p q : List α) : Prop := p <+: q ∧ p ≠ q

theorem StrictlyAbove.trans_isPrefix {p q r : List α} (h : StrictlyAbove p q) (hqr : q <+: r) :
    StrictlyAbove p r := by
  refine ⟨h.1.trans hqr, ?_⟩
  rintro rfl
  exact h.2 (h.1.eq_of_length_le hqr.length_le)

/-- The next name on the way down. -/
theorem exists_child {p q : List α} (h : StrictlyAbove p q) : ∃ a, p ++ [a] <+: q := by
  obtain ⟨⟨rest, rfl⟩, hne⟩ := h
  cases rest with
  | nil => exact absurd (List.append_nil p).symm hne
  | cons a rest => exact ⟨a, rest, by simp⟩

theorem strictlyAbove_concat_iff {p q : List α} {a : α} : StrictlyAbove p (q ++ [a]) ↔ p <+: q := by
  constructor
  · rintro ⟨hpre, hne⟩
    rw [List.prefix_concat_iff] at hpre
    exact hpre.resolve_left hne
  · intro h
    refine ⟨h.trans (List.prefix_append _ _), ?_⟩
    rintro rfl
    have hlen := h.length_le
    rw [List.length_append, List.length_singleton] at hlen
    omega

theorem strictlyAbove_iff_dropLast {p q : List α} (hne : q ≠ []) :
    StrictlyAbove p q ↔ p <+: q.dropLast := by
  conv_lhs => rw [← List.dropLast_append_getLast hne]
  exact strictlyAbove_concat_iff

theorem strictlyAbove_of_concat {p q : List α} {a : α} (h : p ++ [a] <+: q) :
    StrictlyAbove p q :=
  (strictlyAbove_concat_iff.2 (List.prefix_refl p)).trans_isPrefix h

theorem StrictlyAbove.not_isPrefix {p q : List α} (h : StrictlyAbove p q) : ¬q <+: p :=
  fun hq => h.2 (h.1.eq_of_length_le hq.length_le)

namespace NameTree

theorem ext_node {t u : NameTree α β} (h : ∀ path, t.node path = u.node path) : t = u := by
  cases t with
  | mk node root parent =>
    cases u with
    | mk node' root' parent' =>
      obtain rfl : node = node' := funext h
      rfl

/-- The tree with nothing but its root. -/
def empty : NameTree α β where
  node path := match path with
    | [] => some .directory
    | _ :: _ => none
  root := rfl
  parent := by
    intro path name h
    cases path with
    | nil => rfl
    | cons => exact absurd rfl h

variable (t : NameTree α β)

/-- No file stands at a path or above it. -/
def Open (path : List α) : Prop := ∀ q, q <+: path → ∀ content, t.node q ≠ some (.file content)

variable {t}

theorem Open.of_isPrefix {path q : List α} (h : t.Open path) (hq : q <+: path) : t.Open q :=
  fun r hr => h r (hr.trans hq)

/-- Above whatever there is stand directories. -/
theorem isDirectory_of_strictlyAbove {path q : List α} (h : t.node path ≠ none)
    (hq : StrictlyAbove q path) : t.node q = some .directory := by
  obtain ⟨⟨rest, rfl⟩, hne⟩ := hq
  induction rest using List.reverseRecOn with
  | nil => exact absurd (List.append_nil q).symm hne
  | append_singleton rest a ih =>
    rw [← List.append_assoc] at h
    have hparent := t.parent _ _ h
    by_cases hrest : rest = []
    · rw [hrest, List.append_nil] at hparent
      exact hparent
    · refine ih (by rw [hparent]; exact nofun) fun hsame => hrest ?_
      exact List.append_cancel_left (hsame.symm.trans (List.append_nil q).symm)

theorem open_of_isDirectory {path : List α} (h : t.node path = some .directory) : t.Open path := by
  intro q hq content hfile
  by_cases hsame : q = path
  · rw [hsame, h] at hfile
    cases hfile
  · rw [isDirectory_of_strictlyAbove (by rw [h]; exact nofun) ⟨hq, hsame⟩] at hfile
    cases hfile

variable (t)

/-- The other tree has a directory at every path on the way to one, as far as the way is open, and
is the same elsewhere. -/
def MakesDirectories (path : List α) (u : NameTree α β) : Prop :=
  ∀ q, (q <+: path ∧ t.Open q → u.node q = some .directory) ∧
    (¬(q <+: path ∧ t.Open q) → u.node q = t.node q)

/-- The other tree has a file at a path, with directories on the way to it, and is the same
elsewhere. -/
def PutsFile (path : List α) (content : β) (u : NameTree α β) : Prop :=
  u.node path = some (.file content) ∧
    ∀ q, (StrictlyAbove q path → u.node q = some .directory) ∧
      (¬q <+: path → u.node q = t.node q)

/-- The item can be put into the tree. A directory below a file is not made there, and the item is
refused if that is `loud` of a path on the way. -/
def Accepts (loud : List α → Prop) (e : TreeItem α β) : Prop :=
  match e.node with
  | .file _ => e.path ≠ [] ∧ t.Open e.path.dropLast ∧ t.node e.path ≠ some .directory
  | .directory => ∀ q, q <+: e.path → q ≠ [] → ¬t.Open q.dropLast → ¬loud q

/-- The other tree is this one with an item put into it. -/
def Puts (e : TreeItem α β) (u : NameTree α β) : Prop :=
  match e.node with
  | .file content => t.PutsFile e.path content u
  | .directory => t.MakesDirectories e.path u

/-- What a list of items comes to, where each of them is accepted. -/
inductive Settles (loud : List α → Prop) : List (TreeItem α β) → NameTree α β → Prop
  | nil : Settles loud [] empty
  | snoc {items : List (TreeItem α β)} {t u : NameTree α β} {e : TreeItem α β} :
      Settles loud items t → t.Accepts loud e → t.Puts e u → Settles loud (items ++ [e]) u

/-! ### The tree of a list of items -/

/-- The last file at a path has a content. -/
def LastFile (items : List (TreeItem α β)) (path : List α) (content : β) : Prop :=
  ∃ before after, items = before ++ ⟨path, .file content⟩ :: after ∧
    ∀ f ∈ after, f.IsFile → f.path ≠ path

/-- A directory that is made on the way to a directory item: no file stands there or above when it
is its turn. -/
def MadeByDirectory (items : List (TreeItem α β)) (path : List α) : Prop :=
  ∃ before d after, items = before ++ d :: after ∧ d.IsDirectory ∧ path <+: d.path ∧
    ∀ f ∈ before, f.IsFile → ¬f.path <+: path

variable {t} {loud : List α → Prop} {items : List (TreeItem α β)} {e : TreeItem α β}

theorem split_concat_iff {γ : Type} {l before after : List γ} {x y : γ} :
    l ++ [y] = before ++ x :: after ↔
      (after = [] ∧ x = y ∧ before = l) ∨ ∃ rest, after = rest ++ [y] ∧
      l = before ++ x :: rest := by
  induction after using List.reverseRecOn with
  | nil =>
    constructor
    · intro h
      obtain ⟨hbefore, hlast⟩ := List.append_inj' h rfl
      exact .inl ⟨rfl, (List.singleton_inj.1 hlast).symm, hbefore.symm⟩
    · rintro (⟨-, rfl, rfl⟩ | ⟨rest, hrest, -⟩)
      · rfl
      · simp at hrest
  | append_singleton rest z _ =>
    constructor
    · intro h
      rw [← List.cons_append, ← List.append_assoc] at h
      obtain ⟨hbefore, hlast⟩ := List.append_inj' h rfl
      obtain rfl := List.singleton_inj.1 hlast
      exact .inr ⟨rest, rfl, hbefore⟩
    · rintro (⟨hrest, -, -⟩ | ⟨rest', hrest, rfl⟩)
      · simp at hrest
      · rw [hrest]
        simp

theorem lastFile_concat_iff {path : List α} {content : β} :
    LastFile (items ++ [e]) path content ↔
      (e.path = path ∧ e.node = .file content) ∨
        (¬(e.IsFile ∧ e.path = path) ∧ LastFile items path content) := by
  constructor
  · rintro ⟨before, after, hitems, hafter⟩
    rcases split_concat_iff.1 hitems with ⟨rfl, rfl, rfl⟩ | ⟨rest, rfl, rfl⟩
    · exact .inl ⟨rfl, rfl⟩
    · refine .inr ⟨?_, before, rest, rfl, fun f hf => hafter f (List.mem_append_left _ hf)⟩
      rintro ⟨hfile, hpath⟩
      exact hafter e (by simp) hfile hpath
  · rintro (⟨rfl, hnode⟩ | ⟨hother, before, after, rfl, hafter⟩)
    · exact ⟨items, [], by rw [← hnode], nofun⟩
    · refine ⟨before, after ++ [e], by simp, fun f hf hfile hpath => ?_⟩
      rcases List.mem_append.1 hf with hf | hf
      · exact hafter f hf hfile hpath
      · obtain rfl := List.mem_singleton.1 hf
        exact hother ⟨hfile, hpath⟩

theorem madeByDirectory_concat_iff {path : List α} :
    MadeByDirectory (items ++ [e]) path ↔ MadeByDirectory items path ∨
      (e.IsDirectory ∧ path <+: e.path ∧ ∀ f ∈ items, f.IsFile → ¬f.path <+: path) := by
  constructor
  · rintro ⟨before, d, after, hitems, hdirectory, hpath, hbefore⟩
    rcases split_concat_iff.1 hitems with ⟨rfl, rfl, rfl⟩ | ⟨rest, rfl, rfl⟩
    · exact .inr ⟨hdirectory, hpath, hbefore⟩
    · exact .inl ⟨before, d, rest, rfl, hdirectory, hpath, hbefore⟩
  · rintro (⟨before, d, after, rfl, hdirectory, hpath, hbefore⟩ | ⟨hdirectory, hpath, hbefore⟩)
    · exact ⟨before, d, after ++ [e], by simp, hdirectory, hpath, hbefore⟩
    · exact ⟨items, e, [], rfl, hdirectory, hpath, hbefore⟩

/-- The path of a file item has a last file. -/
theorem exists_lastFile {f : TreeItem α β} (hf : f ∈ items) (hfile : f.IsFile) :
    ∃ content, LastFile items f.path content := by
  induction items using List.reverseRecOn with
  | nil => cases hf
  | append_singleton items e ih =>
    by_cases hlast : e.IsFile ∧ e.path = f.path
    · obtain ⟨⟨content, hnode⟩, hpath⟩ := hlast
      exact ⟨content, lastFile_concat_iff.2 (.inl ⟨hpath, hnode⟩)⟩
    · rcases List.mem_append.1 hf with hf | hf
      · obtain ⟨content, hcontent⟩ := ih hf
        exact ⟨content, lastFile_concat_iff.2 (.inr ⟨hlast, hcontent⟩)⟩
      · obtain rfl := List.mem_singleton.1 hf
        exact absurd ⟨hfile, rfl⟩ hlast

theorem LastFile.exists_mem {path : List α} {content : β} (h : LastFile items path content) :
    ∃ f ∈ items, f.IsFile ∧ f.path = path := by
  obtain ⟨before, after, rfl, -⟩ := h
  exact ⟨⟨path, .file content⟩, by simp, ⟨content, rfl⟩, rfl⟩

theorem Accepts.file {content : β} (hnode : e.node = .file content) (h : t.Accepts loud e) :
    e.path ≠ [] ∧ t.Open e.path.dropLast ∧ t.node e.path ≠ some .directory := by
  simpa only [Accepts, hnode] using h

theorem Puts.file {u : NameTree α β} {content : β} (hnode : e.node = .file content)
    (h : t.Puts e u) : t.PutsFile e.path content u := by
  simpa only [Puts, hnode] using h

theorem Puts.directory {u : NameTree α β} (hnode : e.node = .directory) (h : t.Puts e u) :
    t.MakesDirectories e.path u := by
  simpa only [Puts, hnode] using h

/-- The files of the tree are the last ones of the items. -/
theorem Settles.isFile_iff (h : Settles loud items t) (path : List α) (content : β) :
    t.node path = some (.file content) ↔ LastFile items path content := by
  induction h generalizing path content with
  | nil =>
    refine iff_of_false ?_ ?_
    · cases path with
      | nil | cons => exact nofun
    · rintro ⟨before, after, hitems, -⟩
      simp at hitems
  | @snoc items t u e _ haccepts hputs ih =>
    rw [lastFile_concat_iff, ← ih]
    cases hnode : e.node with
    | directory =>
      have hother : ¬(e.IsFile ∧ e.path = path) := fun h => h.1.not_isDirectory hnode
      rw [and_iff_right hother, or_iff_right (by simp)]
      by_cases hway : path <+: e.path ∧ t.Open path
      · -- no file stands on an open way
        rw [((hputs.directory hnode) path).1 hway]
        exact iff_of_false nofun (hway.2 path (List.prefix_refl path) content)
      · rw [((hputs.directory hnode) path).2 hway]
    | file found =>
      obtain ⟨hne, hopen, -⟩ := haccepts.file hnode
      obtain ⟨hself, hrest⟩ := hputs.file hnode
      by_cases hsame : e.path = path
      · subst hsame
        rw [hself]
        have hfile : e.IsFile := ⟨found, hnode⟩
        simp [hfile]
      · have hother : ¬(e.IsFile ∧ e.path = path) := fun h => hsame h.2
        rw [and_iff_right hother, or_iff_right (fun h => hsame h.1)]
        by_cases hpre : path <+: e.path
        · have habove : StrictlyAbove path e.path := ⟨hpre, Ne.symm hsame⟩
          rw [(hrest path).1 habove]
          exact iff_of_false nofun
            (hopen path ((strictlyAbove_iff_dropLast hne).1 habove) content)
        · rw [(hrest path).2 hpre]

/-- A way is open where no file item stands at it or above. -/
theorem Settles.open_iff (h : Settles loud items t) (path : List α) :
    t.Open path ↔ ∀ f ∈ items, f.IsFile → ¬f.path <+: path := by
  constructor
  · intro hopen f hf hfile hpre
    obtain ⟨content, hlast⟩ := exists_lastFile hf hfile
    exact hopen f.path hpre content ((h.isFile_iff _ _).2 hlast)
  · intro hall q hq content hfile
    obtain ⟨f, hf, hisFile, rfl⟩ := ((h.isFile_iff _ _).1 hfile).exists_mem
    exact hall f hf hisFile hq

/-- The directories of the tree are the root, those above a file and those that were made. -/
theorem Settles.isDirectory_iff (h : Settles loud items t) (path : List α) :
    t.node path = some .directory ↔ path = [] ∨
      (∃ f ∈ items, f.IsFile ∧ StrictlyAbove path f.path) ∨ MadeByDirectory items path := by
  induction h generalizing path with
  | nil =>
    cases path with
    | nil => exact iff_of_true rfl (.inl rfl)
    | cons =>
      refine iff_of_false nofun ?_
      rintro (h | ⟨f, hf, -⟩ | ⟨before, d, after, hitems, -⟩)
      · cases h
      · cases hf
      · simp at hitems
  | @snoc items t u e hsettles haccepts hputs ih =>
    rw [madeByDirectory_concat_iff]
    cases hnode : e.node with
    | directory =>
      have hfiles : (∃ f ∈ items ++ [e], f.IsFile ∧ StrictlyAbove path f.path) ↔
          ∃ f ∈ items, f.IsFile ∧ StrictlyAbove path f.path := by
        constructor
        · rintro ⟨f, hf, hfile, habove⟩
          rcases List.mem_append.1 hf with hf | hf
          · exact ⟨f, hf, hfile, habove⟩
          · obtain rfl := List.mem_singleton.1 hf
            exact absurd hnode hfile.not_isDirectory
        · rintro ⟨f, hf, hrest⟩
          exact ⟨f, List.mem_append_left _ hf, hrest⟩
      rw [hfiles, ← hsettles.open_iff]
      by_cases hway : path <+: e.path ∧ t.Open path
      · rw [((hputs.directory hnode) path).1 hway]
        exact iff_of_true rfl (.inr (.inr (.inr ⟨hnode, hway⟩)))
      · rw [((hputs.directory hnode) path).2 hway, ih,
          or_iff_left fun h : e.IsDirectory ∧ _ => hway h.2]
    | file found =>
      obtain ⟨hne, hopen, hfree⟩ := haccepts.file hnode
      obtain ⟨hself, hrest⟩ := hputs.file hnode
      have hnot : ¬(e.IsDirectory ∧ path <+: e.path ∧ ∀ f ∈ items, f.IsFile → ¬f.path <+: path) :=
        fun h => TreeItem.IsFile.not_isDirectory ⟨found, hnode⟩ h.1
      have hfiles : (∃ f ∈ items ++ [e], f.IsFile ∧ StrictlyAbove path f.path) ↔
          (∃ f ∈ items, f.IsFile ∧ StrictlyAbove path f.path) ∨ StrictlyAbove path e.path := by
        constructor
        · rintro ⟨f, hf, hfile, habove⟩
          rcases List.mem_append.1 hf with hf | hf
          · exact .inl ⟨f, hf, hfile, habove⟩
          · obtain rfl := List.mem_singleton.1 hf
            exact .inr habove
        · rintro (⟨f, hf, hrest⟩ | habove)
          · exact ⟨f, List.mem_append_left _ hf, hrest⟩
          · exact ⟨e, by simp, ⟨found, hnode⟩, habove⟩
      rw [or_iff_left hnot, hfiles]
      by_cases habove : StrictlyAbove path e.path
      · rw [(hrest path).1 habove]
        exact iff_of_true rfl (.inr (.inl (.inr habove)))
      · rw [or_iff_left habove, ← ih]
        by_cases hsame : path = e.path
        · -- where the file is put there was no directory
          rw [hsame, hself]
          exact iff_of_false nofun hfree
        · rw [(hrest path).2 fun hpre => habove ⟨hpre, hsame⟩]

/-- An item of a list is accepted by what those before it come to. -/
theorem Settles.split {before after : List (TreeItem α β)}
    (h : Settles loud (before ++ e :: after) t) :
    ∃ u, Settles loud before u ∧ u.Accepts loud e := by
  induction after using List.reverseRecOn generalizing t with
  | nil =>
    generalize hitems : before ++ [e] = items at h
    cases h with
    | nil => simp at hitems
    | snoc hsettles haccepts hputs =>
      obtain ⟨rfl, hlast⟩ := List.append_inj' hitems rfl
      obtain rfl := List.singleton_inj.1 hlast
      exact ⟨_, hsettles, haccepts⟩
  | append_singleton after last ih =>
    rw [← List.cons_append, ← List.append_assoc] at h
    generalize hitems : before ++ e :: after ++ [last] = items at h
    cases h with
    | nil => simp at hitems
    | snoc hsettles haccepts hputs =>
      obtain ⟨rfl, -⟩ := List.append_inj' hitems rfl
      exact ih hsettles

/-! ### What is refused -/

/-- An item is refused after others: a file at the root, above or below another one, or at or above
a directory that was made when no file stood there; a directory whose way leads below a file at a
loud path. -/
def Refused (loud : List α → Prop) (before : List (TreeItem α β)) (e : TreeItem α β) : Prop :=
  match e.node with
  | .file _ => e.path = [] ∨
      (∃ f ∈ before, f.IsFile ∧ (StrictlyAbove f.path e.path ∨ StrictlyAbove e.path f.path)) ∨
        ∃ first d rest, before = first ++ d :: rest ∧ d.IsDirectory ∧ e.path <+: d.path ∧
          ∀ f ∈ first, f.IsFile → f.path ≠ e.path
  | .directory => ∃ f ∈ before, f.IsFile ∧
      ∃ q, StrictlyAbove f.path q ∧ q <+: e.path ∧ loud q

theorem Settles.accepts_iff (h : Settles loud items t) (e : TreeItem α β) :
    t.Accepts loud e ↔ ¬Refused loud items e := by
  unfold Accepts Refused
  cases hnode : e.node with
  | directory =>
    constructor
    · rintro haccepts ⟨f, hf, hfile, q, habove, hway, hloud⟩
      have hne : q ≠ [] := by
        rintro rfl
        exact habove.2 (List.prefix_nil.1 habove.1)
      refine haccepts q hway hne (fun hopen => ?_) hloud
      exact (h.open_iff _).1 hopen f hf hfile ((strictlyAbove_iff_dropLast hne).1 habove)
    · intro hall q hway hne hblocked hloud
      rw [h.open_iff] at hblocked
      push Not at hblocked
      obtain ⟨f, hf, hfile, hpre⟩ := hblocked
      exact hall ⟨f, hf, hfile, q, (strictlyAbove_iff_dropLast hne).2 hpre, hway, hloud⟩
  | file =>
    rw [h.open_iff]
    constructor
    · rintro ⟨hne, hopen, hfree⟩ (hroot | ⟨f, hf, hfile, habove | hbelow⟩ |
        ⟨first, d, rest, rfl, hdirectory, hway, hfirst⟩)
      · exact hne hroot
      · exact hopen f hf hfile ((strictlyAbove_iff_dropLast hne).1 habove)
      · exact hfree ((h.isDirectory_iff _).2 (.inr (.inl ⟨f, hf, hfile, hbelow⟩)))
      · refine hfree ((h.isDirectory_iff _).2 (.inr (.inr
          ⟨first, d, rest, rfl, hdirectory, hway, fun f hf hfile hpre => ?_⟩)))
        refine hopen f (by simp [hf]) hfile ((strictlyAbove_iff_dropLast hne).1 ⟨hpre, ?_⟩)
        exact hfirst f hf hfile
    · intro hall
      have hne : e.path ≠ [] := fun hroot => hall (.inl hroot)
      refine ⟨hne, fun f hf hfile hpre => ?_, fun hdirectory => ?_⟩
      · exact hall (.inr (.inl
          ⟨f, hf, hfile, .inl ((strictlyAbove_iff_dropLast hne).2 hpre)⟩))
      · rcases (h.isDirectory_iff _).1 hdirectory with hroot | ⟨f, hf, hfile, hbelow⟩ |
          ⟨first, d, rest, hsplit, hisDirectory, hway, hfirst⟩
        · exact hne hroot
        · exact hall (.inr (.inl ⟨f, hf, hfile, .inr hbelow⟩))
        · refine hall (.inr (.inr ⟨first, d, rest, hsplit, hisDirectory, hway, ?_⟩))
          intro f hf hfile hsame
          exact hfirst f hf hfile (hsame ▸ List.prefix_refl _)

/-! ### Items that are hidden -/

/-- No directory item is at or below a file item before it. -/
def Unhidden (items : List (TreeItem α β)) : Prop :=
  ∀ before e after, items = before ++ e :: after → e.IsDirectory →
    ∀ f ∈ before, f.IsFile → ¬f.path <+: e.path

theorem unhidden_of_pairwise
    (h : items.Pairwise fun f e => f.IsFile → e.IsDirectory → ¬f.path <+: e.path) :
    Unhidden items := by
  rintro before e after rfl hdirectory f hf hfile
  exact (List.pairwise_append.1 h).2.2 f hf e List.mem_cons_self hfile hdirectory

/-- Two items make one path a file and a directory. -/
def Clashes (items : List (TreeItem α β)) : Prop :=
  ∃ f ∈ items, f.IsFile ∧ ∃ e ∈ items,
    (e.IsDirectory ∧ f.path <+: e.path) ∨ (e.IsFile ∧ StrictlyAbove f.path e.path)

/-- An item needs a directory at a path. -/
def Needs (e : TreeItem α β) (path : List α) : Prop :=
  (e.IsFile ∧ StrictlyAbove path e.path) ∨ (e.IsDirectory ∧ path <+: e.path)

/-- Where no directory item is hidden, the directories are those that the items need. -/
theorem Settles.isDirectory_iff_of_unhidden (h : Settles loud items t) (hunhidden : Unhidden items)
    (path : List α) :
    t.node path = some .directory ↔ path = [] ∨ ∃ e ∈ items, Needs e path := by
  rw [h.isDirectory_iff]
  refine or_congr_right ⟨?_, ?_⟩
  · rintro (⟨f, hf, hfile, habove⟩ | ⟨before, d, after, rfl, hdirectory, hway, -⟩)
    · exact ⟨f, hf, .inl ⟨hfile, habove⟩⟩
    · exact ⟨d, by simp, .inr ⟨hdirectory, hway⟩⟩
  · rintro ⟨e, he, ⟨hfile, habove⟩ | ⟨hdirectory, hway⟩⟩
    · exact .inl ⟨e, he, hfile, habove⟩
    · obtain ⟨before, after, rfl⟩ := List.append_of_mem he
      refine .inr ⟨before, e, after, rfl, hdirectory, hway, fun f hf hfile hpre => ?_⟩
      exact hunhidden before e after rfl hdirectory f hf hfile (hpre.trans hway)

/-- Where no directory item is hidden, accepted items do not clash. -/
theorem Settles.not_clashes (h : Settles loud items t) (hunhidden : Unhidden items) :
    ¬Clashes items := by
  rintro ⟨f, hf, hfile, e, he, hclash⟩
  obtain ⟨content, hlast⟩ := exists_lastFile hf hfile
  have hnode := (h.isFile_iff _ _).2 hlast
  have hdirectory := (h.isDirectory_iff_of_unhidden hunhidden f.path).2
    (.inr ⟨e, he, hclash.symm⟩)
  rw [hnode] at hdirectory
  cases hdirectory

theorem clashes_of_not_unhidden (h : ¬Unhidden items) : Clashes items := by
  unfold Unhidden at h
  push Not at h
  obtain ⟨before, e, after, rfl, hdirectory, f, hf, hfile, hpre⟩ := h
  exact ⟨f, by simp [hf], hfile, e, by simp, .inl ⟨hdirectory, hpre⟩⟩

/-! ### Lists of a tree -/

/-- The items are what stands in the tree below its root, each path once. -/
def Lists (t : NameTree α β) (items : List (TreeItem α β)) : Prop :=
  (items.map TreeItem.path).Nodup ∧
    ∀ e, e ∈ items ↔ e.path ≠ [] ∧ t.node e.path = some e.node

/-- The items of a tree are accepted in any order. -/
theorem Lists.not_refused (h : t.Lists items) {before after : List (TreeItem α β)}
    (hitems : items = before ++ e :: after) : ¬Refused loud before e := by
  have hnode : ∀ f ∈ before, t.node f.path = some f.node := fun f hf =>
    ((h.2 f).1 (by rw [hitems]; simp [hf])).2
  obtain ⟨hne, he⟩ := (h.2 e).1 (by rw [hitems]; simp)
  -- what is strictly above something is no file
  have hnofile : ∀ f ∈ before, f.IsFile → ∀ q, t.node q ≠ none → ¬StrictlyAbove f.path q := by
    rintro f hf ⟨content, hfile⟩ q hq habove
    have hdirectory := isDirectory_of_strictlyAbove hq habove
    rw [hnode f hf, hfile] at hdirectory
    cases hdirectory
  unfold Refused
  cases heNode : e.node with
  | directory =>
    rintro ⟨f, hf, hfile, q, habove, hway, -⟩
    exact hnofile f hf hfile e.path (by rw [he]; exact nofun) (habove.trans_isPrefix hway)
  | file =>
    rw [heNode] at he
    rintro (hroot | ⟨f, hf, hfile, habove | hbelow⟩ | ⟨first, d, rest, rfl, hdirectory, hway, -⟩)
    · exact hne hroot
    · exact hnofile f hf hfile e.path (by rw [he]; exact nofun) habove
    · have hup := isDirectory_of_strictlyAbove (by rw [hnode f hf]; exact nofun) hbelow
      rw [he] at hup
      cases hup
    · have hd := hnode d (by simp)
      rw [hdirectory] at hd
      by_cases hsame : e.path = d.path
      · rw [hsame, hd] at he
        cases he
      · have hup := isDirectory_of_strictlyAbove (by rw [hd]; exact nofun) ⟨hway, hsame⟩
        rw [he] at hup
        cases hup

/-- The items of a tree make it again. -/
theorem Settles.eq_of_lists {u : NameTree α β} (hu : Settles loud items u) (h : t.Lists items) :
    u = t := by
  have hmem : ∀ path node, path ≠ [] → t.node path = some node → ⟨path, node⟩ ∈ items :=
    fun path node hne hnode => (h.2 ⟨path, node⟩).2 ⟨hne, hnode⟩
  refine ext_node fun path => Option.ext fun node => ?_
  cases node with
  | file content =>
    rw [hu.isFile_iff]
    constructor
    · rintro ⟨before, after, rfl, -⟩
      exact ((h.2 ⟨path, .file content⟩).1 (by simp)).2
    · intro hnode
      have hne : path ≠ [] := by
        rintro rfl
        rw [t.root] at hnode
        cases hnode
      obtain ⟨before, after, rfl⟩ := List.append_of_mem (hmem path _ hne hnode)
      refine ⟨before, after, rfl, fun f hf _ hpath => ?_⟩
      -- another item at the path would be a second one
      have hnodup := h.1
      rw [List.map_append, List.map_cons, List.nodup_append] at hnodup
      exact (List.nodup_cons.1 hnodup.2.1).1 (List.mem_map.2 ⟨f, hf, hpath⟩)
  | directory =>
    rw [hu.isDirectory_iff]
    constructor
    · rintro (rfl | ⟨f, hf, -, habove⟩ | ⟨before, d, after, rfl, hdirectory, hway, -⟩)
      · exact t.root
      · exact isDirectory_of_strictlyAbove (by rw [((h.2 f).1 hf).2]; exact nofun) habove
      · have hd := ((h.2 d).1 (by simp)).2
        by_cases hsame : path = d.path
        · rw [hsame, hd, hdirectory]
        · exact isDirectory_of_strictlyAbove (by rw [hd]; exact nofun) ⟨hway, hsame⟩
    · intro hnode
      by_cases hne : path = []
      · exact .inl hne
      · obtain ⟨before, after, hitems⟩ := List.append_of_mem (hmem path _ hne hnode)
        refine .inr (.inr ⟨before, _, after, hitems, rfl, List.prefix_refl path, ?_⟩)
        rintro f hf ⟨content, hfile⟩ hpre
        have hf' := ((h.2 f).1 (by rw [hitems]; simp [hf])).2
        exact open_of_isDirectory hnode f.path hpre content (hf'.trans (congrArg some hfile))

/-! ### Putting things into a tree -/

/-- A file can be put at a path: the way to it is open, and no directory stands there. -/
def Takes (t : NameTree α β) (path : List α) : Prop :=
  t.Open path.dropLast ∧ t.node path ≠ some .directory

section

variable {t u v : NameTree α β} {path : List α} {content : β}

theorem PutsFile.unique (hu : t.PutsFile path content u) (hv : t.PutsFile path content v) :
    u = v := by
  refine ext_node fun q => ?_
  by_cases hsame : q = path
  · rw [hsame, hu.1, hv.1]
  · by_cases hway : q <+: path
    · rw [(hu.2 q).1 ⟨hway, hsame⟩, (hv.2 q).1 ⟨hway, hsame⟩]
    · rw [(hu.2 q).2 hway, (hv.2 q).2 hway]

/-- A file that is there already. -/
theorem putsFile_self (h : t.node path = some (.file content)) : t.PutsFile path content t :=
  ⟨h, fun _ => ⟨isDirectory_of_strictlyAbove (by rw [h]; exact nofun), fun _ => rfl⟩⟩

/-- A file on the way to a path blocks it. -/
theorem Takes.not_isFile {q : List α} (h : t.Takes path) (hne : path ≠ [])
    (hq : StrictlyAbove q path) (found : β) : t.node q ≠ some (.file found) :=
  h.1 q ((strictlyAbove_iff_dropLast hne).1 hq) found

/-- A file that was put blocks the paths below it, and the directories above it take no file. -/
theorem PutsFile.takes_iff {q : List α} (h : t.PutsFile path content u) (htakes : t.Takes path)
    (hpath : path ≠ []) (hq : q ≠ []) :
    u.Takes q ↔ t.Takes q ∧ ¬StrictlyAbove path q ∧ ¬StrictlyAbove q path := by
  constructor
  · intro hu
    have hbelow : ¬StrictlyAbove path q := fun habove => hu.not_isFile hq habove content h.1
    have habove : ¬StrictlyAbove q path := fun habove => hu.2 ((h.2 q).1 habove)
    refine ⟨⟨fun r hr found hfile => ?_, fun hdirectory => ?_⟩, hbelow, habove⟩
    · have hrq := (strictlyAbove_iff_dropLast hq).2 hr
      by_cases hway : r <+: path
      · by_cases hsame : r = path
        · exact hbelow (hsame ▸ hrq)
        · exact htakes.not_isFile hpath ⟨hway, hsame⟩ found hfile
      · exact hu.not_isFile hq hrq found (((h.2 r).2 hway).trans hfile)
    · by_cases hway : q <+: path
      · by_cases hsame : q = path
        · exact htakes.2 (hsame ▸ hdirectory)
        · exact habove ⟨hway, hsame⟩
      · exact hu.2 (((h.2 q).2 hway).trans hdirectory)
  · rintro ⟨ht, hbelow, habove⟩
    refine ⟨fun r hr found hfile => ?_, fun hdirectory => ?_⟩
    · have hrq := (strictlyAbove_iff_dropLast hq).2 hr
      by_cases hway : r <+: path
      · by_cases hsame : r = path
        · exact hbelow (hsame ▸ hrq)
        · rw [(h.2 r).1 ⟨hway, hsame⟩] at hfile
          cases hfile
      · exact ht.not_isFile hq hrq found (((h.2 r).2 hway).symm.trans hfile)
    · by_cases hway : q <+: path
      · by_cases hsame : q = path
        · rw [hsame, h.1] at hdirectory
          cases hdirectory
        · exact habove ⟨hway, hsame⟩
      · exact ht.2 (((h.2 q).2 hway).symm.trans hdirectory)

/-- A file stays where another one is put. -/
theorem PutsFile.isFile {q : List α} {found : β} (h : t.PutsFile path content u)
    (htakes : t.Takes path) (hpath : path ≠ []) (hother : q ≠ path)
    (hfile : t.node q = some (.file found)) : u.node q = some (.file found) := by
  refine ((h.2 q).2 fun hway => ?_).trans hfile
  exact htakes.not_isFile hpath ⟨hway, hother⟩ found hfile

end

section Put

variable [DecidableEq α]

/-- It is enough to look at the leading parts of the path. -/
instance (t : NameTree α β) (path : List α) : Decidable (t.Open path) :=
  decidable_of_iff (∀ q ∈ path.inits, ∀ content ∈ (t.node q).bind TreeNode.content?, False) <| by
    simp only [Open, List.mem_inits, Option.mem_def, Option.bind_eq_some_iff]
    constructor
    · intro h q hq content hfile
      exact h q hq content ⟨_, hfile, rfl⟩
    · rintro h q hq content ⟨node, hnode, hcontent⟩
      cases node with
      | directory => cases hcontent
      | file content' => exact h q hq content' hnode

/-- The tree with directories on the whole way to a path. -/
def makeDirectories (t : NameTree α β) (path : List α) : NameTree α β where
  node q := if q <+: path then some .directory else t.node q
  root := if_pos List.nil_prefix
  parent := by
    intro q name hne
    split
    · rfl
    next hq =>
      refine t.parent q name fun hnone => hne ?_
      rw [if_neg fun hway => hq ((List.prefix_append q [name]).trans hway), hnone]

/-- The tree with a file at a path where it may stand. -/
def putFile (t : NameTree α β) (path : List α) (content : β) (hne : path ≠ [])
    (hfree : t.node path ≠ some .directory) : NameTree α β where
  node q :=
    if q = path then some (.file content)
    else if q <+: path then some .directory
    else t.node q
  root := by rw [if_neg (Ne.symm hne), if_pos List.nil_prefix]
  parent := by
    intro q name hnode
    by_cases hway : q ++ [name] <+: path
    · have habove : StrictlyAbove q path := strictlyAbove_of_concat hway
      rw [if_neg habove.2, if_pos habove.1]
    · have hdirectory : t.node q = some .directory := by
        refine t.parent q name fun hnone => hnode ?_
        rw [if_neg, if_neg hway, hnone]
        rintro rfl
        exact hway (List.prefix_refl _)
      rw [if_neg, hdirectory, ite_self]
      rintro rfl
      exact hfree hdirectory

/-- The tree without the file at a path. -/
def removeFile (t : NameTree α β) (path : List α) : NameTree α β where
  node q :=
    if q = path then
      match t.node q with
      | some .directory => some .directory
      | _ => none
    else t.node q
  root := by rw [t.root, ite_self]
  parent := by
    intro q name hnode
    have hdirectory : t.node q = some .directory := by
      refine t.parent q name fun hnone => hnode ?_
      rw [hnone, ite_self]
    rw [hdirectory, ite_self]

variable {t : NameTree α β} {path : List α}

theorem makesDirectories_makeDirectories (h : t.Open path) :
    t.MakesDirectories path (t.makeDirectories path) :=
  fun _ => ⟨fun hway => if_pos hway.1, fun hway => if_neg fun hq => hway ⟨hq, h.of_isPrefix hq⟩⟩

theorem putsFile_putFile {content : β} (hne : path ≠ []) (hfree : t.node path ≠ some .directory) :
    t.PutsFile path content (t.putFile path content hne hfree) := by
  refine ⟨if_pos rfl, fun q => ⟨fun habove => ?_, fun hother => ?_⟩⟩
  · exact (if_neg habove.2).trans (if_pos habove.1)
  · refine (if_neg ?_).trans (if_neg hother)
    rintro rfl
    exact hother (List.prefix_refl _)

theorem node_removeFile {content : β} (h : t.node path = some (.file content)) (q : List α) :
    (t.removeFile path).node q = if q = path then none else t.node q := by
  by_cases hsame : q = path
  · subst hsame
    simp [removeFile, h]
  · simp [removeFile, hsame]

end Put

end NameTree

import WasmHost.Lib.OrdMap
import WasmHost.Sdk.Directory

/-!
# A directory that is a tree

A `Directory` that keeps what it holds by path and lists a directory by name: what the adapter
relies on can be had.
-/

namespace WasmHost

open OrdMap List

/-- What is held below the root; whatever there is has a directory above it. -/
structure HeldTree where
  held : OrdMap AbsolutePath (TreeNode Bytes)
  root : held.get [] = none
  parent : ∀ path name, held.get (path ++ [name]) ≠ none →
    path = [] ∨ held.get path = some .directory

namespace HeldTree

variable (s : HeldTree) {entry : DirectoryEntry}

/-- What a path is. -/
def node (path : AbsolutePath) : Option (TreeNode Bytes) :=
  if path = [] then some .directory else s.held.get path

/-- The tree that is held. -/
def tree : NameTree PathName Bytes where
  node := s.node
  root := if_pos rfl
  parent := by
    intro path name h
    rw [node, if_neg (by simp)] at h
    unfold node
    split_ifs with hroot
    · rfl
    · exact (s.parent path name h).resolve_left hroot

def new : HeldTree := ⟨.empty, rfl, fun _ _ h => absurd rfl h⟩

/-- The tree with something at a path in a directory where no directory is. -/
def set (path : AbsolutePath) (content : TreeNode Bytes) (hne : path ≠ [])
    (hparent : s.node path.dropLast = some .directory) (hfree : s.node path ≠ some .directory) :
    HeldTree where
  held := s.held.set path content
  root := by
    rw [get_set_ne _ _ (Ne.symm hne)]
    exact s.root
  parent := by
    intro q name h
    have hdirectory : s.node q = some .directory := by
      rw [get_set] at h
      split_ifs at h with hsame
      · rw [← hsame, dropLast_concat] at hparent
        exact hparent
      · exact s.tree.parent q name (by
          show s.node (q ++ [name]) ≠ none
          rw [node, if_neg (by simp)]
          exact h)
    by_cases hroot : q = []
    · exact .inl hroot
    · refine .inr ?_
      rw [get_set_ne]
      · rw [node, if_neg hroot] at hdirectory
        exact hdirectory
      · rintro rfl
        exact hfree hdirectory

theorem node_set (path : AbsolutePath) (content : TreeNode Bytes) (hne : path ≠ [])
    (hparent : s.node path.dropLast = some .directory) (hfree : s.node path ≠ some .directory)
    (q : AbsolutePath) :
    (s.set path content hne hparent hfree).node q =
      if q = path then some content else s.node q := by
  unfold node set
  rw [get_set]
  split_ifs with hroot hsame
  · exact absurd (hsame.symm.trans hroot) hne
  · rfl
  · rfl
  · rfl

/-- Creates a directory below one that is there. -/
def createDir (path : AbsolutePath) : Except Text HeldTree :=
  if h : s.node path ≠ none then .error "file already exists".toList
  else if hparent : path ≠ [] ∧ s.node path.dropLast = some .directory then
    .ok (s.set path .directory hparent.1 hparent.2 (by rw [not_not.1 h]; exact nofun))
  else .error "not a directory".toList

/-- Writes a file below a directory. -/
def writeFile (path : AbsolutePath) (bytes : Bytes) : Except Text HeldTree :=
  if h : path ≠ [] ∧ s.node path.dropLast = some .directory ∧ s.node path ≠ some .directory then
    .ok (s.set path (.file bytes) h.1 h.2.1 h.2.2)
  else .error "not a file".toList

/-- The type of a node. -/
def typeText : TreeNode Bytes → Text
  | .directory => "dir".toList
  | .file _ => "file".toList

/-- The listing of what is held right below a path. -/
def child? (path : AbsolutePath) (entry : AbsolutePath × TreeNode Bytes) : Option DirectoryEntry :=
  match entry.1.getLast? with
  | none => none
  | some name =>
    if entry.1.dropLast = path then some ⟨name.1, typeText entry.2⟩ else none

def nameLE (a b : DirectoryEntry) : Bool := (List.compareLex compare a.name b.name).isLE

def children (path : AbsolutePath) : List DirectoryEntry :=
  (s.held.entries.filterMap (child? path)).mergeSort nameLE

/-- Lists a directory. -/
def readDir (path : AbsolutePath) : Except Text (List DirectoryEntry) :=
  if s.node path = some .directory then .ok (s.children path)
  else .error "not a directory".toList

/-- Reads a file. -/
def readFile (path : AbsolutePath) : Except Text Bytes :=
  match s.node path with
  | some (.file bytes) => .ok bytes
  | _ => .error "not a file".toList

/-! ### The laws -/

variable {path : AbsolutePath}

theorem createDir_new (hnone : s.node path = none)
    (hparent : s.node path.dropLast = some .directory) :
    ∃ created, s.createDir path = .ok created ∧ created.node path = some .directory ∧
      ∀ q, q ≠ path → created.node q = s.node q := by
  have hne : path ≠ [] := by
    rintro rfl
    cases hnone
  have hfree : s.node path ≠ some .directory := by
    rw [hnone]
    exact nofun
  refine ⟨s.set path .directory hne hparent hfree, ?_, ?_, fun q hq => ?_⟩
  · rw [createDir, dif_neg (not_not.2 hnone), dif_pos ⟨hne, hparent⟩]
  · rw [node_set, if_pos rfl]
  · rw [node_set, if_neg hq]

theorem createDir_orphan (hnone : s.node path = none)
    (hparent : s.node path.dropLast ≠ some .directory) :
    s.createDir path = .error "not a directory".toList := by
  rw [createDir, dif_neg (not_not.2 hnone), dif_neg fun h => hparent h.2]

theorem writeFile_ok (bytes : Bytes) (hparent : s.node path.dropLast = some .directory)
    (hfree : s.node path ≠ some .directory) :
    ∃ written, s.writeFile path bytes = .ok written ∧ written.node path = some (.file bytes) ∧
      ∀ q, q ≠ path → written.node q = s.node q := by
  have hne : path ≠ [] := by
    rintro rfl
    exact hfree rfl
  refine ⟨s.set path (.file bytes) hne hparent hfree, ?_, ?_, fun q hq => ?_⟩
  · rw [writeFile, dif_pos ⟨hne, hparent, hfree⟩]
  · rw [node_set, if_pos rfl]
  · rw [node_set, if_neg hq]

theorem child?_eq_some_iff {q : AbsolutePath} {content : TreeNode Bytes} :
    child? path (q, content) = some entry ↔
      ∃ name, q = path ++ [name] ∧ entry = ⟨name.1, typeText content⟩ := by
  induction q using List.reverseRecOn with
  | nil =>
    refine iff_of_false nofun ?_
    rintro ⟨name, hq, -⟩
    simp at hq
  | append_singleton q last _ =>
    rw [child?, List.getLast?_concat, dropLast_concat]
    constructor
    · intro h
      have h' : (if q = path then some (⟨last.1, typeText content⟩ : DirectoryEntry) else none) =
        some entry := h
      split_ifs at h' with hpath
      exact ⟨last, by rw [hpath], (Option.some.inj h').symm⟩
    · rintro ⟨name, hq, rfl⟩
      obtain ⟨rfl, hname⟩ := append_inj' hq rfl
      obtain rfl := singleton_inj.1 hname
      exact if_pos rfl

theorem mem_children_iff :
    entry ∈ s.children path ↔
      ∃ name content, s.node (path ++ [name]) = some content ∧
        entry = ⟨name.1, typeText content⟩ := by
  have hnode : ∀ name content, s.node (path ++ [name]) = some content ↔
      (path ++ [name], content) ∈ s.held.entries := by
    intro name content
    rw [mem_entries, node, if_neg (by simp)]
  rw [children, mem_mergeSort, mem_filterMap]
  constructor
  · rintro ⟨⟨q, content⟩, hmem, hchild⟩
    obtain ⟨name, rfl, rfl⟩ := child?_eq_some_iff.1 hchild
    exact ⟨name, content, (hnode name content).2 hmem, rfl⟩
  · rintro ⟨name, content, hcontent, rfl⟩
    exact ⟨(path ++ [name], content), (hnode name content).1 hcontent,
      child?_eq_some_iff.2 ⟨name, rfl, rfl⟩⟩

theorem nodup_children (path : AbsolutePath) :
    ((s.children path).map DirectoryEntry.name).Nodup := by
  have hperm : (s.children path).Perm (s.held.entries.filterMap (child? path)) :=
    mergeSort_perm _ _
  rw [(hperm.map DirectoryEntry.name).nodup_iff, List.Nodup, pairwise_map, pairwise_filterMap]
  have hkeys := s.held.nodup
  rw [List.Nodup, pairwise_map] at hkeys
  refine hkeys.imp fun {a b} hne x hx y hy hname => hne ?_
  obtain ⟨q, content⟩ := a
  obtain ⟨r, content'⟩ := b
  obtain ⟨name, rfl, rfl⟩ := child?_eq_some_iff.1 hx
  obtain ⟨name', rfl, rfl⟩ := child?_eq_some_iff.1 hy
  rw [Subtype.ext hname]

theorem nameLE_trans (a b c : DirectoryEntry) (hab : nameLE a b) (hbc : nameLE b c) : nameLE a c :=
  Std.TransCmp.isLE_trans hab hbc

theorem nameLE_total (a b : DirectoryEntry) : (nameLE a b || nameLE b a) = true := by
  have hswap : List.compareLex compare b.name a.name =
      (List.compareLex compare a.name b.name).swap := Std.OrientedCmp.eq_swap
  unfold nameLE
  rw [hswap]
  cases List.compareLex compare a.name b.name <;> rfl

theorem name_eq_of_nameLE {a b : DirectoryEntry} (hab : nameLE a b) (hba : nameLE b a) :
    a.name = b.name := by
  have heq : List.compareLex compare a.name b.name = .eq := Std.OrientedCmp.isLE_antisymm hab hba
  exact Std.LawfulEqCmp.eq_of_compare heq

/-- A listing is sorted, so that the tree determines it. -/
theorem children_congr {s s' : HeldTree} (h : s.node = s'.node) (path : AbsolutePath) :
    s.children path = s'.children path := by
  have hnodup : ∀ t : HeldTree, (t.children path).Nodup :=
    fun t => (t.nodup_children path).of_map _
  have hsorted : ∀ t : HeldTree, (t.children path).Pairwise fun a b => nameLE a b :=
    fun t => pairwise_mergeSort nameLE_trans nameLE_total _
  have hmem : ∀ entry, entry ∈ s.children path ↔ entry ∈ s'.children path := by
    intro entry
    rw [mem_children_iff, mem_children_iff, h]
  have hperm : (s.children path).Perm (s'.children path) :=
    (perm_ext_iff_of_nodup (hnodup s) (hnodup s')).2 hmem
  refine hperm.eq_of_pairwise (fun a b ha hb hab hba => ?_) (hsorted s) (hsorted s')
  exact inj_on_of_nodup_map (s'.nodup_children path) ((hmem a).1 ha) hb (name_eq_of_nameLE hab hba)

end HeldTree

/-- The tree as a directory of the SDK. -/
def treeDirectory : SdkDirectory HeldTree where
  new := HeldTree.new
  createDir := HeldTree.createDir
  writeFile := HeldTree.writeFile
  readDir := HeldTree.readDir
  readFile := HeldTree.readFile

theorem treeDirectory_behavesAsFileTree :
    treeDirectory.BehavesAsFileTree HeldTree.tree fun _ => "not a directory".toList where
  new := by
    refine NameTree.ext_node fun path => ?_
    cases path <;> rfl
  createDir_exists s path h :=
    ⟨"file already exists".toList, dif_pos h, by decide⟩
  createDir_new s _ hnone hparent := s.createDir_new hnone hparent
  createDir_orphan s _ hnone hparent := s.createDir_orphan hnone hparent
  writeFile_ok s _ bytes hparent hfree := s.writeFile_ok bytes hparent hfree
  writeFile_fails s path bytes h := by
    refine ⟨"not a file".toList, dif_neg ?_⟩
    rintro ⟨-, hparent, hfree⟩
    exact h.elim (fun h => h hparent) hfree
  readDir_ok s path h := by
    refine ⟨s.children path, if_pos h, s.nodup_children path, fun entry hentry => ?_,
      fun name hname => ?_⟩
    · obtain ⟨name, content, hnode, rfl⟩ := s.mem_children_iff.1 hentry
      refine ⟨name, content, hnode, rfl, ?_⟩
      cases content with
      | directory => exact .inl rfl
      | file => exact rfl
    · obtain ⟨content, hcontent⟩ := Option.ne_none_iff_exists'.1 hname
      exact ⟨_, s.mem_children_iff.2 ⟨name, content, hcontent, rfl⟩, rfl⟩
  readDir_fails s path h := ⟨"not a directory".toList, if_neg h⟩
  reads_same s s' h := by
    have hnode : s.node = s'.node := congrArg NameTree.node h
    constructor
    · funext path
      show s.readDir path = s'.readDir path
      rw [HeldTree.readDir, HeldTree.readDir, hnode, HeldTree.children_congr hnode]
    · funext path
      show s.readFile path = s'.readFile path
      rw [HeldTree.readFile, HeldTree.readFile, hnode]
  readFile_ok s path bytes h := by
    have hnode : s.node path = some (.file bytes) := h
    show s.readFile path = .ok bytes
    rw [HeldTree.readFile, hnode]

end WasmHost

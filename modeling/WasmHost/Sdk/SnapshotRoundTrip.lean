import WasmHost.Lib.Except
import WasmHost.Sdk.TreeDirectory

/-!
# Snapshots that come back

What a directory of the SDK holds after a snapshot was put into it, and what is read out again.

* `snapshot_cases`: putting a snapshot into a directory settles its entries in the tree, or one of
  them is refused.
* `collect_lists`: reading lists the tree.
* `roundTrips_iff_reported`: snapshots come back exactly when no directory is hidden by a file, or
  something else is reported.
-/

namespace WasmHost

open List

/-! ### Paths -/

theorem keptNames_val (path : AbsolutePath) : keptNames (path.map Subtype.val) = some path := by
  induction path with
  | nil => rfl
  | cons name path ih =>
    obtain ⟨name, hname⟩ := name
    rw [map_cons, keptNames, if_neg fun h => h.elim hname.1 hname.2.1, dif_pos hname, ih]
    rfl

/-- The text of a path is normalized to it. -/
theorem normalizeAbsolutePath_text (path : AbsolutePath) (field : String) :
    normalizeAbsolutePath (some path.text) field = .ok path := by
  have hkept : keptNames (path.text.splitOn '/') = some path := by
    have hsplit : path.text.splitOn '/' =
        [] :: (['/'].intercalate (path.map Subtype.val)).splitOn '/' := by
      have h : ([] ++ '/' :: ['/'].intercalate (path.map Subtype.val)).splitOn '/' = _ :=
        SepPath.splitOn_append_sep [] _
      simpa [AbsolutePath.text] using h
    rw [hsplit, keptNames, if_pos (.inl rfl)]
    cases path with
    | nil => rfl
    | cons =>
      rw [SepPath.splitOn_join (by simp), keptNames_val]
      exact forall_mem_map.2 fun name' _ => name'.2.2.2.2
  have hstring : sdkNonEmptyString (some path.text) field = .ok path.text := rfl
  unfold normalizeAbsolutePath
  refine Except.bind_eq_ok_iff.2 ⟨path.text, hstring, ?_⟩
  rw [if_neg (by simp [AbsolutePath.text]), hkept]
  rfl

theorem text_concat (base : AbsolutePath) (name : PathName) :
    AbsolutePath.text (base ++ [name]) =
      (if base = [] then [] else base.text) ++ '/' :: name.1 := by
  have hjoin : ∀ (first : PathName) (rest : AbsolutePath),
      ['/'].intercalate ((first :: rest ++ [name]).map Subtype.val) =
        ['/'].intercalate ((first :: rest).map Subtype.val) ++ '/' :: name.1 := by
    intro first rest
    induction rest generalizing first with
    | nil => simp [intercalate_cons_cons]
    | cons second rest ih =>
      have hrest := ih second
      simp only [map_cons, cons_append, intercalate_cons_cons] at hrest ⊢
      rw [hrest, append_assoc, append_assoc, append_assoc]
  cases base with
  | nil => simp [AbsolutePath.text]
  | cons first rest =>
    rw [if_neg (cons_ne_nil first rest), AbsolutePath.text, AbsolutePath.text, hjoin]
    rfl

theorem joinAbsolute_name (base : AbsolutePath) (name : PathName) :
    joinAbsolute base name.1 = .ok (base ++ [name]) := by
  have hstring : sdkNonEmptyString (some name.1) "directory entry name" = .ok name.1 := by
    obtain ⟨part, hpart⟩ := name
    cases part with
    | nil => exact absurd rfl hpart.1
    | cons => rfl
  unfold joinAbsolute
  refine Except.bind_eq_ok_iff.2 ⟨name.1, hstring, ?_⟩
  rw [← text_concat]
  exact normalizeAbsolutePath_text _ _

section

variable {σ : Type} {d : SdkDirectory σ} {tree : σ → NameTree PathName Bytes}
    {orphanText : AbsolutePath → Text} (hd : d.BehavesAsFileTree tree orphanText)
    {current rest : AbsolutePath} {part : PathName} {t : NameTree PathName Bytes} {depth : ℕ}
    {out : List SnapshotEntry}

/-- The error for a directory that has none above it is not taken for another one. -/
def Loud (orphanText : AbsolutePath → Text) (path : AbsolutePath) : Prop :=
  isAlreadyExistsError (orphanText path) = false

/-! ### Making directories -/

/-- The paths that the loop visits after `current`. -/
def OnWay (current rest q : AbsolutePath) : Prop := q <+: current ++ rest ∧ ¬q <+: current

theorem onWay_cons_iff {q : AbsolutePath} :
    OnWay current (part :: rest) q ↔
      q = current ++ [part] ∨ OnWay (current ++ [part]) rest q := by
  have hsame : current ++ part :: rest = current ++ [part] ++ rest := by simp
  have hstep : current ++ [part] <+: current ++ part :: rest := ⟨rest, hsame.symm⟩
  unfold OnWay
  rw [← hsame]
  constructor
  · rintro ⟨hway, hnot⟩
    by_cases hnext : q <+: current ++ [part]
    · exact .inl ((prefix_concat_iff.1 hnext).resolve_right hnot)
    · exact .inr ⟨hway, hnext⟩
  · rintro (rfl | ⟨hway, hnot⟩)
    · exact ⟨hstep, fun h => by simpa using h.length_le⟩
    · exact ⟨hway, fun h => hnot (h.trans (prefix_append _ _))⟩

variable {path : AbsolutePath}

/-- A directory where nothing was does not close a way. -/
theorem open_iff_of_new {u : NameTree PathName Bytes} (hnone : t.node path = none)
    (hdirectory : u.node path = some .directory) (hsame : ∀ q, q ≠ path → u.node q = t.node q)
    (q : AbsolutePath) : u.Open q ↔ t.Open q := by
  have hfile : ∀ r content, u.node r = some (.file content) ↔ t.node r = some (.file content) := by
    intro r content
    by_cases hr : r = path
    · rw [hr, hnone, hdirectory]
      exact iff_of_false nofun nofun
    · rw [hsame r hr]
  simp only [NameTree.Open, ne_eq, hfile]

/-- What the loop comes to: the open part of the way is made, or a loud path below a file stops
it. -/
def WayOutcome (tree : σ → NameTree PathName Bytes) (orphanText : AbsolutePath → Text) (s : σ)
    (current rest : AbsolutePath) (x : Except SnapshotFailure σ) : Prop :=
  (∃ made, x = .ok made ∧
    (∀ q, (OnWay current rest q ∧ (tree s).Open q → (tree made).node q = some .directory) ∧
      (¬(OnWay current rest q ∧ (tree s).Open q) → (tree made).node q = (tree s).node q)) ∧
    ∀ q, OnWay current rest q → ¬(tree s).Open q.dropLast → ¬Loud orphanText q) ∨
  ∃ message q, x = .error (.sdk message) ∧ OnWay current rest q ∧ ¬(tree s).Open q.dropLast ∧
    Loud orphanText q

/-- One more part at the front of the way, after which the same ways are open. -/
theorem WayOutcome.cons {s s' : σ}
    {x : Except SnapshotFailure σ}
    (h : WayOutcome tree orphanText s' (current ++ [part]) rest x)
    (hopen : ∀ q, (tree s').Open q ↔ (tree s).Open q)
    (hmade : (tree s).Open (current ++ [part]) →
      (tree s').node (current ++ [part]) = some .directory)
    (hclosed : ¬(tree s).Open (current ++ [part]) →
      (tree s').node (current ++ [part]) = (tree s).node (current ++ [part]))
    (hsame : ∀ q, q ≠ current ++ [part] → (tree s').node q = (tree s).node q)
    (hquiet : ¬(tree s).Open current → ¬Loud orphanText (current ++ [part])) :
    WayOutcome tree orphanText s current (part :: rest) x := by
  rcases h with ⟨made, hx, hnode, hloud⟩ | ⟨message, q, hx, hway, hblocked, hloud⟩
  · refine .inl ⟨made, hx, fun q => ⟨?_, ?_⟩, fun q hway hblocked => ?_⟩
    · rintro ⟨hway, hq⟩
      by_cases hbelow : OnWay (current ++ [part]) rest q
      · exact (hnode q).1 ⟨hbelow, (hopen q).2 hq⟩
      · obtain rfl := (onWay_cons_iff.1 hway).resolve_right hbelow
        rw [(hnode _).2 fun h => hbelow h.1]
        exact hmade hq
    · intro hnot
      rw [(hnode q).2 fun h => hnot ⟨onWay_cons_iff.2 (.inr h.1), (hopen q).1 h.2⟩]
      by_cases hq : q = current ++ [part]
      · subst hq
        exact hclosed fun h => hnot ⟨onWay_cons_iff.2 (.inl rfl), h⟩
      · exact hsame q hq
    · rcases onWay_cons_iff.1 hway with rfl | hbelow
      · rw [dropLast_concat] at hblocked
        exact hquiet hblocked
      · exact hloud q hbelow fun h => hblocked ((hopen _).1 h)
  · exact .inr ⟨message, q, hx, onWay_cons_iff.2 (.inr hway),
      fun h => hblocked ((hopen _).2 h), hloud⟩

include hd

/-- The loop of `ensureDirectory`, from a path that is a directory unless a file is in its way. -/
theorem ensureDirectories_outcome (rest : List PathName) (s : σ) (current : AbsolutePath)
    (hcurrent : (tree s).Open current → (tree s).node current = some .directory) :
    WayOutcome tree orphanText s current rest (ensureDirectories d s current rest) := by
  induction rest generalizing s current with
  | nil =>
    have hnone : ∀ q, ¬OnWay current [] q := by
      rintro q ⟨hway, hnot⟩
      rw [append_nil] at hway
      exact hnot hway
    exact .inl ⟨s, rfl, fun q => ⟨fun h => absurd h.1 (hnone q), fun _ => rfl⟩,
      fun q h => absurd h (hnone q)⟩
  | cons part rest ih =>
    have hdrop : (current ++ [part]).dropLast = current := dropLast_concat
    cases hnode : (tree s).node (current ++ [part]) with
    | some node =>
      -- something is there, and the error says so
      obtain ⟨message, hcreate, hexists⟩ := hd.createDir_exists s (current ++ [part])
        (by rw [hnode]; exact nofun)
      have hparent := (tree s).parent current part (by rw [hnode]; exact nofun)
      have hnext : (tree s).Open (current ++ [part]) →
          (tree s).node (current ++ [part]) = some .directory := by
        intro hopen
        cases node with
        | directory => exact hnode
        | file content => exact absurd hnode (hopen _ (prefix_refl _) content)
      rw [ensureDirectories, hcreate]
      simp only [hexists, if_true]
      exact (ih s _ hnext).cons (fun _ => Iff.rfl) hnext (fun _ => rfl) (fun _ _ => rfl)
        fun hblocked => absurd (NameTree.open_of_isDirectory hparent) hblocked
    | none =>
      by_cases hparent : (tree s).node current = some .directory
      · obtain ⟨created, hcreate, hdirectory, hsame⟩ :=
          hd.createDir_new s (current ++ [part]) hnode (by rw [hdrop]; exact hparent)
        have hopen := open_iff_of_new hnode hdirectory hsame
        have hway : (tree s).Open (current ++ [part]) :=
          (hopen _).1 (NameTree.open_of_isDirectory hdirectory)
        rw [ensureDirectories, hcreate]
        exact (ih created _ fun _ => hdirectory).cons hopen (fun _ => hdirectory)
          (fun h => absurd hway h) hsame
            fun hblocked => absurd (NameTree.open_of_isDirectory hparent) hblocked
      · -- a file is above, and nothing is made any more
        have hblocked : ¬(tree s).Open current := fun hopen => hparent (hcurrent hopen)
        have hcreate := hd.createDir_orphan s (current ++ [part]) hnode (by rwa [hdrop])
        rw [ensureDirectories, hcreate]
        cases hloud : isAlreadyExistsError (orphanText (current ++ [part])) with
        | false =>
          simp only [hloud, Bool.false_eq_true, if_false]
          exact .inr ⟨orphanText (current ++ [part]), current ++ [part], rfl,
            onWay_cons_iff.2 (.inl rfl), by rwa [hdrop], hloud⟩
        | true =>
          have hnext : (tree s).Open (current ++ [part]) →
              (tree s).node (current ++ [part]) = some .directory :=
            fun hopen => absurd (hopen.of_isPrefix (prefix_append _ _)) hblocked
          simp only [hloud, if_true]
          refine (ih s _ hnext).cons (fun _ => Iff.rfl) hnext (fun _ => rfl) (fun _ _ => rfl) ?_
          intro _ h
          rw [Loud, hloud] at h
          cases h

/-- What `ensureDirectory` makes, or why it stops. -/
theorem ensureDirectory_cases (s : σ) (path : AbsolutePath) :
    (∃ made, ensureDirectory d s path = .ok made ∧ (tree s).MakesDirectories path (tree made) ∧
      ∀ q, q <+: path → q ≠ [] → ¬(tree s).Open q.dropLast → ¬Loud orphanText q) ∨
    ∃ message q, ensureDirectory d s path = .error (.sdk message) ∧ q <+: path ∧ q ≠ [] ∧
      ¬(tree s).Open q.dropLast ∧ Loud orphanText q := by
  have hway : ∀ q, OnWay [] path q ↔ q <+: path ∧ q ≠ [] := by
    intro q
    rw [OnWay, nil_append, prefix_nil]
  rcases ensureDirectories_outcome hd path s [] fun _ => (tree s).root with
    ⟨made, hmade, hnode, hloud⟩ | ⟨message, q, hfail, hq, hclosed, hloud⟩
  · refine .inl ⟨made, hmade, fun q => ⟨?_, ?_⟩, fun q hq hne => hloud q ((hway q).2 ⟨hq, hne⟩)⟩
    · rintro ⟨hq, hopen⟩
      by_cases hne : q = []
      · rw [hne]
        exact (tree made).root
      · exact (hnode q).1 ⟨(hway q).2 ⟨hq, hne⟩, hopen⟩
    · exact fun hnot => (hnode q).2 fun h => hnot ⟨((hway q).1 h.1).1, h.2⟩
  · exact .inr ⟨message, q, hfail, ((hway q).1 hq).1, ((hway q).1 hq).2, hclosed, hloud⟩

/-! ### Putting entries -/

theorem putFile_cases (s : σ) (path : AbsolutePath) (bytes : Bytes) :
    ((path ≠ [] ∧ (tree s).Open path.dropLast ∧ (tree s).node path ≠ some .directory) ∧
      ∃ put, putEntry d s ⟨path, .file bytes⟩ = .ok put ∧
        (tree s).PutsFile path bytes (tree put)) ∨
    (¬(path ≠ [] ∧ (tree s).Open path.dropLast ∧ (tree s).node path ≠ some .directory) ∧
      ∃ message, putEntry d s ⟨path, .file bytes⟩ = .error (.sdk message)) := by
  rcases ensureDirectory_cases hd s path.dropLast with
    ⟨made, hmade, hmakes, -⟩ | ⟨message, q, hfail, hq, -, hblocked, -⟩
  · have hput : putEntry d s ⟨path, .file bytes⟩ =
        (d.writeFile made path bytes).mapError .sdk := by
      simp only [putEntry, hmade]
      rfl
    by_cases haccepts : path ≠ [] ∧ (tree s).Open path.dropLast ∧
        (tree s).node path ≠ some .directory
    · obtain ⟨hne, hopen, hfree⟩ := haccepts
      have hself : ¬path <+: path.dropLast := fun h =>
        ((strictlyAbove_iff_dropLast hne).2 h).2 rfl
      have hnode : (tree made).node path = (tree s).node path :=
        (hmakes path).2 fun h => hself h.1
      obtain ⟨written, hwrite, hfile, hsame⟩ := hd.writeFile_ok made path bytes
        ((hmakes _).1 ⟨prefix_refl _, hopen⟩) (by rwa [hnode])
      refine .inl ⟨⟨hne, hopen, hfree⟩, written, by rw [hput, hwrite]; rfl, hfile, fun q => ?_⟩
      constructor
      · intro habove
        have hway := (strictlyAbove_iff_dropLast hne).1 habove
        rw [hsame q habove.2]
        exact (hmakes q).1 ⟨hway, hopen.of_isPrefix hway⟩
      · intro hnot
        have hother : q ≠ path := by
          rintro rfl
          exact hnot (prefix_refl q)
        rw [hsame q hother]
        exact (hmakes q).2 fun h => hnot (h.1.trans (List.dropLast_prefix path))
    · have hwrite : ∃ message, d.writeFile made path bytes = .error message := by
        refine hd.writeFile_fails made path bytes ?_
        by_cases hne : path = []
        · rw [hne]
          exact .inr (tree made).root
        · by_cases hopen : (tree s).Open path.dropLast
          · have hfree : (tree s).node path = some .directory := by
              by_contra hfree
              exact haccepts ⟨hne, hopen, hfree⟩
            refine .inr ?_
            rw [(hmakes path).2 fun h => ((strictlyAbove_iff_dropLast hne).2 h.1).2 rfl, hfree]
          · refine .inl fun hdirectory => hopen ?_
            rw [(hmakes _).2 fun h => hopen h.2] at hdirectory
            exact NameTree.open_of_isDirectory hdirectory
      obtain ⟨message, hwrite⟩ := hwrite
      refine .inr ⟨haccepts, message, ?_⟩
      rw [hput, hwrite]
      rfl
  · refine .inr ⟨fun haccepts => ?_, message, ?_⟩
    · exact hblocked (haccepts.2.1.of_isPrefix ((List.dropLast_prefix q).trans hq))
    · simp only [putEntry, hfail]
      rfl

/-- An entry is put into the tree, or refused. -/
theorem putEntry_cases (s : σ) (e : SnapshotEntry) :
    ((tree s).Accepts (Loud orphanText) e ∧
      ∃ put, putEntry d s e = .ok put ∧ (tree s).Puts e (tree put)) ∨
    (¬(tree s).Accepts (Loud orphanText) e ∧
      ∃ message, putEntry d s e = .error (.sdk message)) := by
  obtain ⟨path, node⟩ := e
  cases node with
  | file bytes => exact putFile_cases hd s path bytes
  | directory =>
    rcases ensureDirectory_cases hd s path with
      ⟨made, hmade, hmakes, hquiet⟩ | ⟨message, q, hfail, hq, hne, hblocked, hloud⟩
    · exact .inl ⟨hquiet, made, hmade, hmakes⟩
    · exact .inr ⟨fun haccepts => haccepts q hq hne hblocked hloud, message, hfail⟩

/-- The entries settle in the tree, or one of them is refused. -/
theorem putEntries_cases (entries : List SnapshotEntry) :
    (∃ put, entries.foldlM (putEntry d) d.new = .ok put ∧
      NameTree.Settles (Loud orphanText) entries (tree put)) ∨
    (∃ failure, entries.foldlM (putEntry d) d.new = .error failure) ∧
      ∃ before e after, entries = before ++ e :: after ∧
        NameTree.Refused (Loud orphanText) before e := by
  induction entries using List.reverseRecOn with
  | nil =>
    refine .inl ⟨d.new, rfl, ?_⟩
    rw [hd.new]
    exact .nil
  | append_singleton entries e ih =>
    rw [foldlM_append]
    rcases ih with ⟨put, hput, hsettles⟩ | ⟨⟨failure, hfail⟩, before, e', after, rfl, hrefused⟩
    · rw [hput]
      rcases putEntry_cases hd put e with ⟨haccepts, put', hput', hputs⟩ | ⟨hnot, message, hfail⟩
      · refine .inl ⟨put', ?_, hsettles.snoc haccepts hputs⟩
        simp only [foldlM_cons, foldlM_nil]
        exact Except.bind_eq_ok_iff.2 ⟨put, rfl, Except.bind_eq_ok_iff.2 ⟨put', hput', rfl⟩⟩
      · refine .inr ⟨⟨.sdk message, ?_⟩, entries, e, [], rfl, ?_⟩
        · simp only [foldlM_cons, foldlM_nil]
          refine Except.bind_eq_error_iff.2 (.inr ⟨put, rfl, ?_⟩)
          exact Except.bind_eq_error_iff.2 (.inl hfail)
        · exact not_not.1 fun hrefused => hnot ((hsettles.accepts_iff e).2 hrefused)
    · refine .inr ⟨⟨failure, ?_⟩, before, e', after ++ [e], by simp, hrefused⟩
      rw [hfail]
      rfl

/-! ### Reading -/

/-- What is read at and below a path. -/
def ListsBelow (t : NameTree PathName Bytes) (path : AbsolutePath) (out : List SnapshotEntry) :
    Prop :=
  (out.map TreeItem.path).Nodup ∧
    ∀ e, e ∈ out ↔ e.path ≠ [] ∧ path <+: e.path ∧ t.node e.path = some e.node

/-- What an entry of a listing adds to the snapshot. -/
def entrySnapshot (d : SdkDirectory σ) (s : σ) (depth : ℕ) (path : AbsolutePath)
    (entry : DirectoryEntry) : Except SnapshotFailure (List SnapshotEntry) := do
  let entryPath ← (joinAbsolute path entry.name).mapError .adapter
  if entry.type = "dir".toList ∨ entry.type = "directory".toList then
    collectDirectorySnapshot d s depth entryPath
  else if entry.type = "file".toList then do
    let bytes ← (d.readFile s entryPath).mapError .sdk
    return [⟨entryPath, .file bytes⟩]
  else return []

/-- The tree ends before a depth below a path. -/
def EndsBefore (t : NameTree PathName Bytes) (path : AbsolutePath) (depth : ℕ) : Prop :=
  ∀ q, path <+: q → t.node q ≠ none → q.length < path.length + depth

omit hd in
theorem listsBelow_file {bytes : Bytes} (hne : path ≠ [])
    (hnode : t.node path = some (.file bytes)) :
    ListsBelow t path [⟨path, .file bytes⟩] := by
  refine ⟨nodup_singleton _, fun e => ?_⟩
  rw [mem_singleton]
  constructor
  · rintro rfl
    exact ⟨hne, prefix_refl _, hnode⟩
  · rintro ⟨-, hpre, he⟩
    -- nothing is below a file
    have hsame : path = e.path := by
      by_contra hother
      rw [NameTree.isDirectory_of_strictlyAbove (by rw [he]; exact nofun) ⟨hpre, hother⟩]
        at hnode
      cases hnode
    obtain ⟨epath, enode⟩ := e
    obtain rfl := hsame
    obtain rfl : TreeNode.file bytes = enode := Option.some.inj (hnode.symm.trans he)
    rfl

theorem collect_lists (depth : ℕ) (s : σ) (path : AbsolutePath)
    (hdirectory : (tree s).node path = some .directory)
    (hends : EndsBefore (tree s) path depth) :
    ∃ out, collectDirectorySnapshot d s depth path = .ok out ∧ ListsBelow (tree s) path out := by
  induction depth generalizing path with
  | zero =>
    have hlen := hends path (prefix_refl _) (by rw [hdirectory]; exact nofun)
    omega
  | succ depth ih =>
    obtain ⟨entries, hread, hnames, hlisted, hall⟩ := hd.readDir_ok s path hdirectory
    -- every entry is a child, with what is below it
    have hentry : ∀ entry ∈ entries, ∃ out name, entry.name = Subtype.val name ∧
        entrySnapshot d s depth path entry = .ok out ∧
          ListsBelow (tree s) (path ++ [name]) out := by
      intro entry hmem
      obtain ⟨name, node, hnode, hname, htype⟩ := hlisted entry hmem
      have hjoin : (joinAbsolute path entry.name).mapError SnapshotFailure.adapter =
          .ok (path ++ [name]) := by
        rw [hname, joinAbsolute_name]
        rfl
      cases node with
      | directory =>
        obtain ⟨out, hout, hlists⟩ := ih (path ++ [name]) hnode fun q hq hne => by
          have hlen := hends q ((prefix_append _ _).trans hq) hne
          rw [length_append, length_singleton]
          omega
        refine ⟨out, name, hname, Except.bind_eq_ok_iff.2 ⟨_, hjoin, ?_⟩, hlists⟩
        have htype' : entry.type = "dir".toList ∨ entry.type = "directory".toList := htype
        rw [if_pos htype']
        exact hout
      | file bytes =>
        have hreadFile := hd.readFile_ok s _ _ hnode
        refine ⟨[⟨path ++ [name], .file bytes⟩], name, hname,
          Except.bind_eq_ok_iff.2 ⟨_, hjoin, ?_⟩, listsBelow_file (by simp) hnode⟩
        have htype' : entry.type = "file".toList := htype
        rw [if_neg (by rw [htype']; decide), if_pos htype', hreadFile]
        rfl
    choose! out name hname hout hlists using hentry
    have hcollect : collectDirectorySnapshot d s (depth + 1) path =
        .ok ((if path = [] then [] else [⟨path, .directory⟩]) ++ entries.flatMap out) := by
      rw [collectDirectorySnapshot, hread]
      have hmap : entries.mapM (entrySnapshot d s depth path) = .ok (entries.map out) :=
        Except.mapM_eq_ok_map hout
      refine Except.bind_eq_ok_iff.2 ⟨entries.map out, hmap, ?_⟩
      rw [← flatMap_def]
      rfl
    have hbelow : ∀ entry ∈ entries, ∀ e ∈ out entry, path ++ [name entry] <+: e.path :=
      fun entry hentry e he => (((hlists entry hentry).2 e).1 he).2.1
    refine ⟨_, hcollect, ?_, fun e => ?_⟩
    · rw [map_append, map_flatMap, nodup_append]
      refine ⟨by split_ifs <;> simp, nodup_flatMap.2 ⟨fun x hx => (hlists x hx).1, ?_⟩, ?_⟩
      · rw [List.Nodup, pairwise_map] at hnames
        refine hnames.imp_of_mem fun {a b} ha hb hne p hpa hpb => hne ?_
        obtain ⟨ea, hea, rfl⟩ := mem_map.1 hpa
        obtain ⟨eb, heb, hpath⟩ := mem_map.1 hpb
        have hwaya := hbelow a ha ea hea
        have hwayb := hbelow b hb eb heb
        rw [hpath] at hwayb
        -- two children above one path are one
        have hsame := (prefix_of_prefix_length_le hwaya hwayb (by simp)).eq_of_length (by simp)
        rw [hname a ha, hname b hb, singleton_inj.1 (append_cancel_left hsame)]
      · intro p hp q hq
        obtain ⟨entry, hentry, hq⟩ := mem_flatMap.1 hq
        obtain ⟨e, he, rfl⟩ := mem_map.1 hq
        split_ifs at hp with hroot
        · cases hp
        · obtain rfl : p = path := by simpa using hp
          exact (strictlyAbove_concat_iff.2 (prefix_refl p)).trans_isPrefix
            (hbelow entry hentry e he) |>.2
    · constructor
      · intro he
        rcases mem_append.1 he with he | he
        · split_ifs at he with hroot
          · cases he
          · obtain rfl := mem_singleton.1 he
            exact ⟨hroot, prefix_refl _, hdirectory⟩
        · obtain ⟨entry, hentry, he⟩ := mem_flatMap.1 he
          obtain ⟨hne, hway, hnode⟩ := ((hlists entry hentry).2 e).1 he
          exact ⟨hne, (prefix_append _ _).trans hway, hnode⟩
      · rintro ⟨hne, hway, hnode⟩
        by_cases hsame : path = e.path
        · obtain ⟨epath, enode⟩ := e
          obtain rfl := hsame
          obtain rfl : TreeNode.directory = enode := Option.some.inj (hdirectory.symm.trans hnode)
          exact mem_append_left _ (by simp [hne])
        · obtain ⟨child, hchild⟩ := exists_child ⟨hway, hsame⟩
          have hthere : (tree s).node (path ++ [child]) ≠ none := by
            by_cases hend : path ++ [child] = e.path
            · rw [hend, hnode]
              exact nofun
            · rw [NameTree.isDirectory_of_strictlyAbove (by rw [hnode]; exact nofun)
                ⟨hchild, hend⟩]
              exact nofun
          obtain ⟨entry, hentry, hentryName⟩ := hall child hthere
          obtain rfl : child = name entry :=
            Subtype.ext (hentryName.symm.trans (hname entry hentry))
          exact mem_append_right _ (mem_flatMap.2
            ⟨entry, hentry, ((hlists entry hentry).2 e).2 ⟨hne, hchild, hnode⟩⟩)

/-- What is read depends on the tree alone. -/
theorem collect_congr {s s' : σ} (h : tree s = tree s') (depth : ℕ) (path : AbsolutePath) :
    collectDirectorySnapshot d s depth path = collectDirectorySnapshot d s' depth path := by
  obtain ⟨hdir, hfile⟩ := hd.reads_same s s' h
  induction depth generalizing path with
  | zero => rfl
  | succ depth ih => simp only [collectDirectorySnapshot, hdir, hfile, ih]

omit hd in
/-- A greater depth changes no result. -/
theorem collect_succ {s : σ} (h : collectDirectorySnapshot d s depth path = .ok out) :
    collectDirectorySnapshot d s (depth + 1) path = .ok out := by
  induction depth generalizing path out with
  | zero => cases h
  | succ depth ih =>
    rw [collectDirectorySnapshot] at h ⊢
    split at h
    · exact h
    next entries _ =>
      obtain ⟨below, hbelow, h⟩ := Except.bind_eq_ok_iff.1 h
      refine Except.bind_eq_ok_iff.2 ⟨below, ?_, h⟩
      rw [Except.mapM_eq_ok_iff] at hbelow ⊢
      refine hbelow.imp fun entry out hentry => ?_
      obtain ⟨entryPath, hjoin, hentry⟩ := Except.bind_eq_ok_iff.1 hentry
      refine Except.bind_eq_ok_iff.2 ⟨entryPath, hjoin, ?_⟩
      split_ifs at hentry ⊢
      · exact ih hentry
      · exact hentry
      · exact hentry

omit hd in
theorem collect_mono {s : σ} {depth' : ℕ} (hle : depth ≤ depth')
    (h : collectDirectorySnapshot d s depth path = .ok out) :
    collectDirectorySnapshot d s depth' path = .ok out := by
  induction hle with
  | refl => exact h
  | step _ ih => exact collect_succ ih

end

/-! ### The round trip -/

section

variable {σ : Type} (d : SdkDirectory σ) (localeCompare : Text → Text → Ordering)
    {entries : List SnapshotEntry}

/-- The snapshot that is read of a directory. -/
def Gives (s : σ) (snapshot : List SnapshotEntry) : Prop :=
  ∃ bound, ∀ depth ≥ bound,
    wasmerDirectoryToSnapshot d localeCompare depth s = .ok snapshot

/-- The entries with the directories above them: the last bytes of each file, each path once, in
order. The root is not listed. -/
structure SnapshotOf (entries snapshot : List SnapshotEntry) : Prop where
  sorted : snapshot.Pairwise fun a b => (compareSnapshotEntries localeCompare a b).isLE
  once : (snapshot.map TreeItem.path).Nodup
  files : ∀ path bytes, (⟨path, .file bytes⟩ : SnapshotEntry) ∈ snapshot ↔
    NameTree.LastFile entries path bytes
  directories : ∀ path, (⟨path, .directory⟩ : SnapshotEntry) ∈ snapshot ↔
    path ≠ [] ∧ ∃ e ∈ entries, NameTree.Needs e path

/-- An entry of a snapshot as it is given to the adapter. -/
def SnapshotEntry.toValue (entry : SnapshotEntry) : EntryValue where
  type := some (SnapshotEntry.typeText entry)
  path := some (AbsolutePath.text entry.path)
  bytes := match entry.node with
    | .directory => none
    | .file bytes => some (.bytes bytes)
  contents := none

/-- What is put into a directory comes back, and comes back again, and two entries that make one
path a file and a directory are reported. -/
structure RoundTrips (values : List EntryValue) : Prop where
  back : ∀ s, snapshotToWasmerDirectory d values = .ok s → ∃ entries snapshot,
    normalizeWorkspaceSnapshot values = .ok entries ∧ Gives d localeCompare s snapshot ∧
      SnapshotOf localeCompare entries snapshot ∧
        ∃ s', snapshotToWasmerDirectory d (snapshot.map SnapshotEntry.toValue) = .ok s' ∧
          Gives d localeCompare s' snapshot
  clash : ∀ entries, normalizeWorkspaceSnapshot values = .ok entries → NameTree.Clashes entries →
    ∃ failure, snapshotToWasmerDirectory d values = .error failure

/-- No directory entry is at or below a file entry before it, or some entry is refused. -/
def Reported (orphanText : AbsolutePath → Text) (values : List EntryValue) : Prop :=
  ∀ entries, normalizeWorkspaceSnapshot values = .ok entries →
    NameTree.Unhidden entries ∨ ∃ before e after, entries = before ++ e :: after ∧
      NameTree.Refused (Loud orphanText) before e

variable {d} {localeCompare}

theorem normalizeSnapshotEntry_toValue (entry : SnapshotEntry) :
    normalizeSnapshotEntry (SnapshotEntry.toValue entry) = .ok entry := by
  obtain ⟨path, node⟩ := entry
  have hpath := normalizeAbsolutePath_text path "workspace entry path"
  cases node with
  | directory =>
    have hstep : normalizeSnapshotEntry (SnapshotEntry.toValue ⟨path, .directory⟩) =
        (normalizeAbsolutePath (some (AbsolutePath.text path)) "workspace entry path").bind
          fun path => .ok ⟨path, .directory⟩ := rfl
    rw [hstep, hpath]
    rfl
  | file bytes =>
    have hstep : normalizeSnapshotEntry (SnapshotEntry.toValue ⟨path, .file bytes⟩) =
        (normalizeAbsolutePath (some (AbsolutePath.text path)) "workspace entry path").bind
          fun path => .ok ⟨path, .file bytes⟩ := rfl
    rw [hstep, hpath]
    rfl

theorem snapshotToWasmerDirectory_of_normalize {values : List EntryValue}
    (h : normalizeWorkspaceSnapshot values = .ok entries) :
    snapshotToWasmerDirectory d values = entries.foldlM (putEntry d) d.new := by
  unfold snapshotToWasmerDirectory
  rw [h]
  rfl

theorem normalizeWorkspaceSnapshot_toValue (snapshot : List SnapshotEntry) :
    normalizeWorkspaceSnapshot (snapshot.map SnapshotEntry.toValue) = .ok snapshot := by
  rw [normalizeWorkspaceSnapshot, Except.mapM_eq_ok_iff, List.forall₂_map_left_iff,
    List.forall₂_same]
  exact fun entry _ => normalizeSnapshotEntry_toValue entry

theorem snapshotToWasmerDirectory_toValue (snapshot : List SnapshotEntry) :
    snapshotToWasmerDirectory d (snapshot.map SnapshotEntry.toValue) =
      snapshot.foldlM (putEntry d) d.new :=
  snapshotToWasmerDirectory_of_normalize (normalizeWorkspaceSnapshot_toValue snapshot)

theorem transCmp_compareSnapshotEntries (h : Std.TransCmp localeCompare) :
    Std.TransCmp (compareSnapshotEntries localeCompare) := by
  have hcomap : ∀ f : SnapshotEntry → Text, Std.TransCmp fun a b => localeCompare (f a) (f b) :=
    fun f => { eq_swap := Std.OrientedCmp.eq_swap, isLE_trans := Std.TransCmp.isLE_trans }
  have hpath := hcomap fun e => AbsolutePath.text e.path
  have htype := hcomap SnapshotEntry.typeText
  exact inferInstanceAs (Std.TransCmp (compareLex
    (fun a b : SnapshotEntry => localeCompare (AbsolutePath.text a.path) (AbsolutePath.text b.path))
    fun a b => localeCompare (SnapshotEntry.typeText a) (SnapshotEntry.typeText b)))

theorem pairwise_mergeSort_snapshot (h : Std.TransCmp localeCompare)
    (snapshot : List SnapshotEntry) :
    (snapshot.mergeSort fun a b => (compareSnapshotEntries localeCompare a b).isLE).Pairwise
      fun a b => (compareSnapshotEntries localeCompare a b).isLE := by
  have hcmp := transCmp_compareSnapshotEntries h
  refine @pairwise_mergeSort SnapshotEntry
    (fun a b => (compareSnapshotEntries localeCompare a b).isLE)
    (fun a b c => hcmp.isLE_trans) (fun a b => ?_) snapshot
  have hswap : compareSnapshotEntries localeCompare a b =
      (compareSnapshotEntries localeCompare b a).swap := hcmp.eq_swap
  rw [hswap]
  cases compareSnapshotEntries localeCompare b a <;> rfl

variable {tree : σ → NameTree PathName Bytes} {orphanText : AbsolutePath → Text}

/-- The tree of some items ends somewhere. -/
theorem exists_endsBefore {loud : AbsolutePath → Prop} {t : NameTree PathName Bytes}
    (h : NameTree.Settles loud entries t) : ∃ depth, EndsBefore t [] depth := by
  obtain ⟨depth, hdepth⟩ : ∃ depth, ∀ e ∈ entries, e.path.length < depth := by
    clear h
    induction entries with
    | nil => exact ⟨0, nofun⟩
    | cons e entries ih =>
      obtain ⟨depth, hdepth⟩ := ih
      refine ⟨max depth (e.path.length + 1), fun e' he' => ?_⟩
      rcases mem_cons.1 he' with rfl | he'
      · omega
      · have := hdepth e' he'
        omega
  refine ⟨depth + 1, fun q _ hq => ?_⟩
  rw [length_nil, Nat.zero_add]
  cases hnode : t.node q with
  | none => exact absurd hnode hq
  | some node =>
    have hlen : q = [] ∨ ∃ e ∈ entries, q.length ≤ e.path.length := by
      cases node with
      | file =>
        obtain ⟨e, he, -, rfl⟩ := ((h.isFile_iff _ _).1 hnode).exists_mem
        exact .inr ⟨e, he, le_refl _⟩
      | directory =>
        rcases (h.isDirectory_iff q).1 hnode with
          hroot | ⟨e, he, -, habove⟩ | ⟨before, e, after, rfl, -, hway, -⟩
        · exact .inl hroot
        · exact .inr ⟨e, he, habove.1.length_le⟩
        · exact .inr ⟨e, by simp, hway.length_le⟩
    rcases hlen with rfl | ⟨e, he, hle⟩
    · exact Nat.succ_pos _
    · have := hdepth e he
      omega

section

variable (hd : d.BehavesAsFileTree tree orphanText) (hcompare : Std.TransCmp localeCompare)

include hd

/-- What is read of a directory lists its tree, in order. -/
theorem exists_gives (hcompare : Std.TransCmp localeCompare) {s : σ} {depth : ℕ}
    (hends : EndsBefore (tree s) [] depth) :
    ∃ snapshot, Gives d localeCompare s snapshot ∧ (tree s).Lists snapshot ∧
      snapshot.Pairwise fun a b => (compareSnapshotEntries localeCompare a b).isLE := by
  obtain ⟨out, hout, hnodup, hmem⟩ := collect_lists hd depth s [] (tree s).root hends
  refine ⟨out.mergeSort fun a b => (compareSnapshotEntries localeCompare a b).isLE,
    ⟨depth, fun depth' hle => ?_⟩, ⟨?_, fun e => ?_⟩, pairwise_mergeSort_snapshot hcompare out⟩
  · exact Except.bind_eq_ok_iff.2 ⟨out, collect_mono hle hout, rfl⟩
  · exact ((mergeSort_perm out _).map TreeItem.path).nodup_iff.2 hnodup
  · rw [mem_mergeSort, hmem]
    exact and_congr_right fun _ => and_iff_right (List.nil_prefix)

/-- Directories with one tree give one snapshot. -/
theorem Gives.congr {s s' : σ} (h : tree s = tree s') {snapshot : List SnapshotEntry}
    (hgives : Gives d localeCompare s snapshot) : Gives d localeCompare s' snapshot := by
  obtain ⟨bound, hbound⟩ := hgives
  refine ⟨bound, fun depth hdepth => ?_⟩
  rw [← hbound depth hdepth]
  unfold wasmerDirectoryToSnapshot
  rw [collect_congr hd h]

/-- Entries none of which is hidden come back. -/
theorem back_of_unhidden (hcompare : Std.TransCmp localeCompare)
    (hunhidden : NameTree.Unhidden entries) {s : σ}
    (hsettles : NameTree.Settles (Loud orphanText) entries (tree s)) :
    ∃ snapshot, Gives d localeCompare s snapshot ∧ SnapshotOf localeCompare entries snapshot ∧
      ∃ s', snapshotToWasmerDirectory d (snapshot.map SnapshotEntry.toValue) = .ok s' ∧
        Gives d localeCompare s' snapshot := by
  obtain ⟨depth, hends⟩ := exists_endsBefore hsettles
  obtain ⟨snapshot, hgives, hlists, hsorted⟩ := exists_gives hd hcompare hends
  refine ⟨snapshot, hgives, ⟨hsorted, hlists.1, fun path bytes => ?_, fun path => ?_⟩, ?_⟩
  · rw [hlists.2, ← hsettles.isFile_iff]
    refine and_iff_right_of_imp ?_
    rintro hnode rfl
    rw [(tree s).root] at hnode
    cases hnode
  · rw [hlists.2]
    refine and_congr_right fun hne => ?_
    rw [hsettles.isDirectory_iff_of_unhidden hunhidden, or_iff_right hne]
  · rw [snapshotToWasmerDirectory_toValue]
    rcases putEntries_cases hd snapshot with
      ⟨s', hput, hagain⟩ | ⟨-, before, e, after, hsplit, hrefused⟩
    · exact ⟨s', hput, hgives.congr hd (hagain.eq_of_lists hlists).symm⟩
    · exact absurd hrefused (hlists.not_refused hsplit)

/-- Snapshots come back, and clashes are reported, exactly when no directory is hidden by a file, or
something else is reported. -/
theorem roundTrips_iff_reported (hcompare : Std.TransCmp localeCompare) (values : List EntryValue) :
    RoundTrips d localeCompare values ↔ Reported orphanText values := by
  constructor
  · intro h entries hentries
    by_contra hnot
    obtain ⟨hhidden, haccepted⟩ := not_or.1 hnot
    obtain ⟨failure, hfail⟩ := h.clash entries hentries (NameTree.clashes_of_not_unhidden hhidden)
    rw [snapshotToWasmerDirectory_of_normalize hentries] at hfail
    rcases putEntries_cases hd entries with ⟨s, hput, -⟩ | ⟨-, hrefused⟩
    · rw [hput] at hfail
      cases hfail
    · exact haccepted hrefused
  · intro hreported
    constructor
    case back =>
      intro s hput
      obtain ⟨entries, hentries, hfold⟩ := Except.bind_eq_ok_iff.1 hput
      have hentries : normalizeWorkspaceSnapshot values = .ok entries := by
        cases hnormalize : normalizeWorkspaceSnapshot values with
        | error error =>
          rw [hnormalize] at hentries
          cases hentries
        | ok found =>
          rw [hnormalize] at hentries
          obtain rfl : found = entries := Except.ok.inj hentries
          rfl
      rcases putEntries_cases hd entries with ⟨s', hput', hsettles⟩ | ⟨⟨failure, hfail⟩, -⟩
      · obtain rfl := Except.ok.inj (hfold.symm.trans hput')
        have hunhidden := (hreported entries hentries).resolve_right ?_
        · obtain ⟨snapshot, hback⟩ := back_of_unhidden hd hcompare hunhidden hsettles
          exact ⟨entries, snapshot, hentries, hback⟩
        · rintro ⟨before, e, after, rfl, hrefused⟩
          obtain ⟨t, ht, haccepts⟩ := hsettles.split
          exact (ht.accepts_iff e).1 haccepts hrefused
      · rw [hfail] at hfold
        cases hfold
    case clash =>
      intro entries hentries hclashes
      rw [snapshotToWasmerDirectory_of_normalize hentries]
      rcases putEntries_cases hd entries with ⟨s, hput, hsettles⟩ | ⟨hfail, -⟩
      · exfalso
        rcases hreported entries hentries with hunhidden | ⟨before, e, after, rfl, hrefused⟩
        · exact hsettles.not_clashes hunhidden hclashes
        · obtain ⟨t, ht, haccepts⟩ := hsettles.split
          exact (ht.accepts_iff e).1 haccepts hrefused
      · exact hfail

end

end

/-- A file is replaced, and a directory is given after a file elsewhere. -/
def replacedEntries : List SnapshotEntry :=
  [⟨[⟨['b'], by decide⟩], .file [1]⟩, ⟨[⟨['a'], by decide⟩], .directory⟩,
    ⟨[⟨['b'], by decide⟩], .file [2]⟩, ⟨[⟨['a'], by decide⟩, ⟨['c'], by decide⟩], .file [3]⟩]

theorem roundTrips_replacedEntries :
    RoundTrips treeDirectory (List.compareLex compare)
      (replacedEntries.map SnapshotEntry.toValue) := by
  refine (roundTrips_iff_reported treeDirectory_behavesAsFileTree inferInstance _).2 ?_
  intro entries hentries
  rw [normalizeWorkspaceSnapshot_toValue] at hentries
  obtain rfl := Except.ok.inj hentries
  refine .inl (NameTree.unhidden_of_pairwise ?_)
  simp [replacedEntries, TreeItem.IsDirectory]

/-- A directory at the path of a file that is there already. -/
def hiddenEntries : List SnapshotEntry :=
  [⟨[⟨['a'], by decide⟩], .file [1]⟩, ⟨[⟨['a'], by decide⟩], .directory⟩]

/-- The error of `createDir` says that something exists there, and the directory is dropped. -/
theorem not_roundTrips_hiddenEntries :
    ¬RoundTrips treeDirectory (List.compareLex compare)
      (hiddenEntries.map SnapshotEntry.toValue) := by
  intro h
  have hclashes : NameTree.Clashes hiddenEntries :=
    ⟨_, mem_cons_self, ⟨_, rfl⟩, _, mem_cons_of_mem _ mem_cons_self,
      .inl ⟨rfl, prefix_refl _⟩⟩
  obtain ⟨failure, hfail⟩ := h.clash _ (normalizeWorkspaceSnapshot_toValue _) hclashes
  rw [snapshotToWasmerDirectory_toValue] at hfail
  have hput : (hiddenEntries.foldlM (putEntry treeDirectory) treeDirectory.new).toBool = true := by
    decide +kernel
  rw [hfail] at hput
  cases hput

end WasmHost

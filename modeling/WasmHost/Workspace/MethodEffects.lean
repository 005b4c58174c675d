import WasmHost.Workspace.Methods
import WasmHost.Workspace.SameStores
import WasmHost.Workspace.StableNames

/-!
# What a method of the memory store can do

One lemma for each method: what it does to the store when it returns, and what it leaves behind when
it rejects. A method makes all of its checks before its first change, so that only a clock that
gives no time can stop it later: behind the deletion that a renaming of a file begins with, or
between two directories of a recursive creation.

* `Store.Accepts`, `Store.Rejects`: the cases, and `Store.ends_runOp`: there are no others.
* `Store.Interrupted`: the calls that are stopped behind their first change.
-/

namespace WasmHost

open OrdMap SepPath List StoreM ExceptT

/-! ### The steps of a method -/

namespace StoreM

variable {α : Type} {r : StoreRun} {E : StoreFault → StoreRun → Prop} {key : Text}

theorem ends_ofExcept {x : Except WorkspaceError α} {Q : α → StoreRun → Prop} :
    (ofExcept x).Ends r Q E ↔
      (∀ a, x = .ok a → Q a r) ∧ ∀ e, x = .error e → E (.workspace e) r := by
  rw [ofExcept, ends_mk_pure]
  cases x with
  | error | ok => simp [Except.mapError]

theorem ends_currentTime {Q : ℕ → StoreRun → Prop} :
    currentTime.Ends r Q E ↔
      (∀ time, nonNegativeTime (r.clock 0) = .ok time → Q time ⟨r.store, r.clock.rest⟩) ∧
        ∀ e, nonNegativeTime (r.clock 0) = .error e → E (.workspace e) ⟨r.store, r.clock.rest⟩ := by
  unfold currentTime
  rw [ends_bind, ends_get, ends_bind, ends_modify, ends_ofExcept]

theorem ends_setDirectory {record : StoreDirectory} {Q : Unit → StoreRun → Prop} :
    (setDirectory key record).Ends r Q E ↔
      Q () ⟨{ r.store with directories := r.store.directories.set key record }, r.clock⟩ := Iff.rfl

theorem ends_deleteFileKey {Q : Unit → StoreRun → Prop} :
    (deleteFileKey key).Ends r Q E ↔
      Q () ⟨{ r.store with files := r.store.files.delete key }, r.clock⟩ := Iff.rfl

theorem ends_setStore {store : Store} {Q : Unit → StoreRun → Prop} :
    (setStore store).Ends r Q E ↔ Q () ⟨store, r.clock⟩ := Iff.rfl

/-! What follows a check, where every refusal leaves the same behind. -/

section

variable {β : Type} {Q : β → StoreRun → Prop}

theorem ends_check {x : Except WorkspaceError α} {f : α → StoreM β} (he : ∀ e, E e r)
    (hf : ∀ a, x = .ok a → (f a).Ends r Q E) : (ofExcept x >>= f).Ends r Q E := by
  rw [ends_bind, ends_ofExcept]
  exact ⟨hf, fun e _ => he _⟩

theorem ends_unless {c : Prop} [Decidable c] {kind : WorkspaceErrorKind} {message : String}
    {x : StoreM β} (he : ∀ e, E e r) (hx : ¬c → x.Ends r Q E) :
    (if c then reject kind message else x).Ends r Q E := by
  rw [ends_ite]
  exact ⟨fun _ => he _, hx⟩

theorem ends_timed {f : ℕ → StoreM β}
    (he : ¬r.clock.Ticks 0 → ∀ e, E e ⟨r.store, r.clock.rest⟩)
    (hf : ∀ time, nonNegativeTime (r.clock 0) = .ok time →
      (f time).Ends ⟨r.store, r.clock.rest⟩ Q E) : (currentTime >>= f).Ends r Q E := by
  rw [ends_bind, ends_currentTime]
  refine ⟨hf, fun e hreading => he ?_ _⟩
  rintro ⟨time, htime⟩
  rw [hreading] at htime
  cases htime

theorem ends_known {x : Except WorkspaceError α} {a : α} {f : α → StoreM β} (h : x = .ok a)
    (hf : (f a).Ends r Q E) : (ofExcept x >>= f).Ends r Q E := by
  subst h
  exact hf

theorem ends_timed_known {time : ℕ} {f : ℕ → StoreM β} (h : nonNegativeTime (r.clock 0) = .ok time)
    (hf : (f time).Ends ⟨r.store, r.clock.rest⟩ Q E) : (currentTime >>= f).Ends r Q E := by
  rw [ends_bind, ends_currentTime, h]
  refine ⟨?_, nofun⟩
  rintro _ ⟨⟩
  exact hf

/-- The store is read. -/
theorem ends_read {f : StoreRun → StoreM β} (hf : (f r).Ends r Q E) : (get >>= f).Ends r Q E := by
  rw [ends_bind]
  exact hf

end

end StoreM

namespace Store

/-! ### The cases -/

/-- The keys on the way to an entry, behind `current`. -/
def pathsFrom (current : Text) : List Text → List Text
  | [] => []
  | part :: parts => joinKey current part :: pathsFrom (joinKey current part) parts

/-- The keys that `ensureDirectory` goes through. -/
def pathsTo (key : Text) : List Text := pathsFrom [] ((key.splitOn '/').filter (· ≠ []))

/-- The same record, possibly at another time. -/
def RestampedDirectory (record record' : StoreDirectory) : Prop :=
  record'.path = record.path ∧ (record.mtimeMs < 2 ^ 53 → record'.mtimeMs < 2 ^ 53)

/-- The file has another time at most. -/
def RestampedFile (record record' : StoreFile) : Prop :=
  record'.path = record.path ∧ record'.content = record.content ∧
    (record.mtimeMs < 2 ^ 53 → record'.mtimeMs < 2 ^ 53)

section

variable (s : Store)

/-- The keys of a list that are no directories yet. -/
def missing (keys : List Text) : List Text := keys.filter fun k => !s.directories.has k

/-- The store with new directories, each with a time of its own. -/
def withDirectories (keys : List Text) (times : ℕ → ℕ) : Store :=
  { s with
    directories := s.directories.setAll (keys.mapIdx fun i k => (k, ⟨times i, workspacePath k⟩)) }

/-- The checks that `rename` makes of its two places. -/
structure Movable (fromPath toPath source target : Text) : Prop where
  reads_source : normalizeWorkspacePath fromPath = .ok source
  reads_target : normalizeWorkspacePath toPath = .ok target
  source_ne : source ≠ []
  target_ne : target ≠ []
  parent : s.requireParentDirectory target = .ok ()
  file_free : s.files.has target = false
  directory_free : s.directories.has target = false

/-- The same entries, up to their times. -/
structure Restamped (s' : Store) : Prop where
  keys : s'.directories.keys = s.directories.keys
  directories : ∀ k, Option.Rel RestampedDirectory (s.directories.get k) (s'.directories.get k)
  files : ∀ k, Option.Rel RestampedFile (s.files.get k) (s'.files.get k)

/-- The number of entries that a directory takes with it, itself among them. -/
def readings (source : Text) : ℕ :=
  s.directories.entries.countP (fun e => SepPath.AtOrBelow '/' source e.1) +
    s.files.entries.countP fun e => SepPath.Below '/' source e.1

/-- The clock gives no time behind the first change of a call. -/
inductive Interrupted (clock : Clock) : StoreOp → Prop
  | rename {fromPath toPath source target : Text} (h : s.Movable fromPath toPath source target)
      (hfile : s.files.has source = true) (hclock : ¬clock.Ticks 0) :
      Interrupted clock (.rename fromPath toPath)
  | createDirectory {path key : Text} {i : ℕ} (hkey : normalizeWorkspacePath path = .ok key)
      (hfiles : ∀ k ∈ pathsTo key, s.files.has k = false) (hpos : 0 < i)
      (hlt : i < (s.missing (pathsTo key)).length) (hbefore : ∀ j < i, clock.Ticks j)
      (hclock : ¬clock.Ticks i) : Interrupted clock (.createDirectory path true)

variable (engine : Base64Engine) (clock : Clock)

/-- What a call does that is accepted. -/
inductive Accepts : StoreOp → Store → Prop
  | writeFile {path key : Text} {content : FileContent} {bytes : Bytes} {time : ℕ}
      (hkey : normalizeWorkspacePath path = .ok key) (hne : key ≠ [])
      (hdir : s.directories.has key = false) (hparent : s.requireParentDirectory key = .ok ())
      (hbytes : StoreMethod.toBytes content = .ok bytes)
      (htime : nonNegativeTime (clock 0) = .ok time) :
      Accepts (.writeFile path content)
        { s with files := s.files.set key ⟨bytes, time, workspacePath key⟩ }
  | deleteFile {path key : Text} (hkey : normalizeWorkspacePath path = .ok key)
      (hfile : s.files.has key = true) :
      Accepts (.deleteFile path) { s with files := s.files.delete key }
  | rootDirectory {path : Text} {recursive : Bool} (hkey : normalizeWorkspacePath path = .ok []) :
      Accepts (.createDirectory path recursive) s
  | createDirectory {path key : Text} {time : ℕ} (hkey : normalizeWorkspacePath path = .ok key)
      (hne : key ≠ []) (hfile : s.files.has key = false)
      (hparent : s.requireParentDirectory key = .ok ()) (hdir : s.directories.has key = false)
      (htime : nonNegativeTime (clock 0) = .ok time) :
      Accepts (.createDirectory path false)
        { s with directories := s.directories.set key ⟨time, workspacePath key⟩ }
  | ensureDirectory {path key : Text} {times : ℕ → ℕ} (hkey : normalizeWorkspacePath path = .ok key)
      (hne : key ≠ []) (hfiles : ∀ k ∈ pathsTo key, s.files.has k = false)
      (htimes : ∀ i < (s.missing (pathsTo key)).length, nonNegativeTime (clock i) = .ok (times i)) :
      Accepts (.createDirectory path true) (s.withDirectories (s.missing (pathsTo key)) times)
  | deleteDirectory {path key : Text} {recursive : Bool}
      (hkey : normalizeWorkspacePath path = .ok key) (hne : key ≠ [])
      (hdir : s.directories.has key = true)
      (hempty : recursive = true ∨ s.hasChildren key = false) :
      Accepts (.deleteDirectory path recursive) (s.deleteDirectoryTree key)
  | renameFile {fromPath toPath source target : Text} {record : StoreFile} {time : ℕ}
      (h : s.Movable fromPath toPath source target) (hfile : s.files.get source = some record)
      (htime : nonNegativeTime (clock 0) = .ok time) :
      Accepts (.rename fromPath toPath)
        { s with
          files := (s.files.delete source).set target
            { record with mtimeMs := time, path := workspacePath target } }
  | renameDirectory {fromPath toPath source target : Text} {s' : Store}
      (h : s.Movable fromPath toPath source target) (hfile : s.files.has source = false)
      (hdir : s.directories.has source = true) (hinside : isChildPath source target = false)
      (htimes : ∀ i < s.readings source, clock.Ticks i)
      (hmoved : (s.moveDirectory 0 source target).Restamped s') :
      Accepts (.rename fromPath toPath) s'
  | importSnapshot {snapshot : SnapshotObject} {directories : List (Text × StoreDirectory)}
      {files : List (Text × StoreFile)} {time : ℕ}
      (htime : nonNegativeTime (clock 0) = .ok time)
      (hversion : snapshot.version = 1 ∧ snapshot.root = workspacePreopenPath)
      (hdirectories : snapshot.directories.mapM loadDirectory = .ok directories)
      (hfiles : snapshot.files.mapM (StoreMethod.loadFileObject engine) = .ok files)
      (hgraph : validateWorkspaceGraph (OrdMap.ofList files)
        ((OrdMap.empty.set [] (directoryRecord [] time)).setAll directories) = .ok ()) :
      Accepts (.importSnapshot (some snapshot))
        ⟨(OrdMap.empty.set [] (directoryRecord [] time)).setAll directories, OrdMap.ofList files⟩

/-- What a call leaves that is rejected. -/
inductive Rejects : StoreOp → Store → Prop
  | unchanged {op : StoreOp} (h : ¬s.Interrupted clock op) : Rejects op s
  | renameFile {fromPath toPath source target : Text} (h : s.Movable fromPath toPath source target)
      (hfile : s.files.has source = true) (hclock : ¬clock.Ticks 0) :
      Rejects (.rename fromPath toPath) { s with files := s.files.delete source }
  | ensureDirectory {path key : Text} {times : ℕ → ℕ} {i : ℕ}
      (hkey : normalizeWorkspacePath path = .ok key)
      (hfiles : ∀ k ∈ pathsTo key, s.files.has k = false) (hpos : 0 < i)
      (hlt : i < (s.missing (pathsTo key)).length)
      (htimes : ∀ j < i, nonNegativeTime (clock j) = .ok (times j)) (hclock : ¬clock.Ticks i) :
      Rejects (.createDirectory path true)
        (s.withDirectories ((s.missing (pathsTo key)).take i) times)

end

variable {s : Store} {engine : Base64Engine} {clock : Clock} {fromPath toPath : Text}
    {o : ClockedOp} {r : StoreRun}

/-! ### Files -/

variable (path : Text) {parts keys : List Text} {current k key source target : Text} {op : StoreOp}
    {s' : Store}

theorem ends_writeFile (content : FileContent) :
    (StoreMethod.writeFile path content).Ends ⟨s, clock⟩
      (fun _ r => s.Accepts engine clock (.writeFile path content) r.store)
      fun _ r => s.Rejects clock (.writeFile path content) r.store := by
  have hkeep : s.Rejects clock (.writeFile path content) s := .unchanged nofun
  unfold StoreMethod.writeFile
  refine ends_check (fun _ => hkeep) fun key hkey => ends_read ?_
  refine ends_unless (fun _ => hkeep) fun hne => ?_
  refine ends_unless (fun _ => hkeep) fun hdir => ?_
  refine ends_check (fun _ => hkeep) fun _ hparent => ?_
  refine ends_check (fun _ => hkeep) fun bytes hbytes => ?_
  refine ends_timed (fun _ _ => hkeep) fun time htime => ?_
  exact .writeFile hkey hne (by simpa using hdir) hparent hbytes htime

theorem ends_deleteFile :
    (StoreMethod.deleteFile path).Ends ⟨s, clock⟩
      (fun _ r => s.Accepts engine clock (.deleteFile path) r.store)
      fun _ r => s.Rejects clock (.deleteFile path) r.store := by
  have hkeep : s.Rejects clock (.deleteFile path) s := .unchanged nofun
  unfold StoreMethod.deleteFile
  refine ends_check (fun _ => hkeep) fun key hkey => ends_read ?_
  rw [ends_ite]
  refine ⟨fun hfile => .deleteFile hkey hfile, fun _ => ?_⟩
  exact ends_unless (fun _ => hkeep) fun _ => hkeep

/-! ### Directories -/

theorem ends_deleteDirectory (recursive : Bool) :
    (StoreMethod.deleteDirectory path recursive).Ends ⟨s, clock⟩
      (fun _ r => s.Accepts engine clock (.deleteDirectory path recursive) r.store)
      fun _ r => s.Rejects clock (.deleteDirectory path recursive) r.store := by
  have hkeep : s.Rejects clock (.deleteDirectory path recursive) s := .unchanged nofun
  unfold StoreMethod.deleteDirectory
  refine ends_check (fun _ => hkeep) fun key hkey => ends_read ?_
  refine ends_unless (fun _ => hkeep) fun hne => ?_
  refine ends_unless (fun _ => hkeep) fun hdir => ?_
  refine ends_unless (fun _ => hkeep) fun hempty => ?_
  refine .deleteDirectory hkey hne (by simpa using hdir) ?_
  rw [not_and_or] at hempty
  simpa using hempty

theorem joinKey_ne_nil (base : Text) {part : Text} (hpart : part ≠ []) :
    joinKey base part ≠ [] := by
  unfold joinKey
  split
  · exact hpart
  · exact append_ne_nil_of_right_ne_nil _ (cons_ne_nil _ _)

theorem pathsFrom_below (hcurrent : current ≠ []) (hk : k ∈ pathsFrom current parts) :
    SepPath.Below '/' current k := by
  induction parts generalizing current with
  | nil => cases hk
  | cons part parts ih =>
    have hbelow : SepPath.Below '/' current (joinKey current part) := by
      rw [joinKey, if_neg hcurrent]
      exact below_append current part
    rcases mem_cons.1 hk with rfl | hrest
    · exact hbelow
    · refine hbelow.trans (ih ?_ hrest)
      rintro h
      exact absurd (h ▸ hbelow).length_lt (Nat.not_lt_zero _)

theorem missing_cons (k : Text) (keys : List Text) :
    s.missing (k :: keys) =
      if s.directories.has k = true then s.missing keys else k :: s.missing keys := by
  unfold missing
  rw [filter_cons]
  cases s.directories.has k <;> simp

theorem mem_missing : k ∈ s.missing keys ↔ k ∈ keys ∧ s.directories.has k = false := by
  rw [missing, mem_filter, Bool.not_eq_true']

theorem has_withDirectories {times : ℕ → ℕ} :
    (s.withDirectories keys times).directories.has k = true ↔
      k ∈ keys ∨ s.directories.has k = true := by
  have hkeys : (keys.mapIdx fun i j => (j, (⟨times i, workspacePath j⟩ : StoreDirectory))).map
      Prod.fst = keys := by
    rw [mapIdx_eq_zipIdx_map, map_map]
    exact zipIdx_map_fst 0 keys
  rw [withDirectories, has_setAll, hkeys]

theorem withDirectories_cons (k : Text) (keys : List Text) (times : ℕ → ℕ) :
    s.withDirectories (k :: keys) times =
      withDirectories { s with directories := s.directories.set k ⟨times 0, workspacePath k⟩ } keys
        fun i => times (i + 1) := by
  rw [withDirectories, mapIdx_cons]
  rfl

/-- A new directory is none of the keys below it. -/
theorem missing_set (h : k ∉ keys) (record : StoreDirectory) :
    missing { s with directories := s.directories.set k record } keys = s.missing keys := by
  refine filter_congr fun j hj => ?_
  have hne : j ≠ k := fun heq => h (heq ▸ hj)
  simp [hne]

/-- Where no key on the way is a file, the missing directories are made one after another, for as
long as the clock gives a time. -/
theorem ends_ensureDirectoryFrom (hparts : ∀ part ∈ parts, part ≠ []) {s : Store} {clock : Clock}
    (hfiles : ∀ k ∈ pathsFrom current parts, s.files.has k = false) :
    (StoreMethod.ensureDirectoryFrom current parts).Ends ⟨s, clock⟩
      (fun _ r => ∃ times : ℕ → ℕ,
        (∀ i < (s.missing (pathsFrom current parts)).length,
          nonNegativeTime (clock i) = .ok (times i)) ∧
        r.store = s.withDirectories (s.missing (pathsFrom current parts)) times)
      fun _ r => ∃ (times : ℕ → ℕ) (i : ℕ),
        i < (s.missing (pathsFrom current parts)).length ∧
        (∀ j < i, nonNegativeTime (clock j) = .ok (times j)) ∧ ¬clock.Ticks i ∧
        r.store = s.withDirectories ((s.missing (pathsFrom current parts)).take i) times := by
  induction parts generalizing current s clock with
  | nil => exact ⟨fun _ => 0, fun i hi => absurd hi (Nat.not_lt_zero i), rfl⟩
  | cons part parts ih =>
    obtain ⟨hpart, hrest⟩ := forall_mem_cons.1 hparts
    have hne : joinKey current part ≠ [] := joinKey_ne_nil current hpart
    have hfile : s.files.has (joinKey current part) = false := hfiles _ mem_cons_self
    have hbelow : ∀ k ∈ pathsFrom (joinKey current part) parts, s.files.has k = false :=
      fun k hk => hfiles k (mem_cons_of_mem _ hk)
    have hnew : joinKey current part ∉ pathsFrom (joinKey current part) parts :=
      fun hmem => not_below_self _ (pathsFrom_below hne hmem)
    unfold StoreMethod.ensureDirectoryFrom StoreMethod.ensurePart
    rw [ends_bind, pathsFrom, missing_cons]
    refine ends_read ?_
    rw [ends_ite]
    refine ⟨fun h => absurd h (by simp [hfile]), fun _ => ?_⟩
    rw [ends_ite]
    refine ⟨fun hhas => ?_, fun hmissing => ?_⟩
    · rw [if_pos hhas]
      exact ih hrest hbelow
    · rw [if_neg hmissing]
      refine ends_timed (fun hclock _ => ?_) fun time htime => ?_
      · exact ⟨fun _ => 0, 0, Nat.succ_pos _, fun j hj => absurd hj (Nat.not_lt_zero j),
          hclock, rfl⟩
      · have hrecord : directoryRecord (workspacePreopenPath ++ '/' :: joinKey current part) time =
            ⟨time, workspacePath (joinKey current part)⟩ := by
          rw [← directoryRecord_workspacePath]
          simp [workspacePath, hne]
        rw [ends_setDirectory, hrecord]
        -- the rest of the way starts with the next reading
        have hbelow' : ∀ k ∈ pathsFrom (joinKey current part) parts,
            ({ s with
              directories := s.directories.set (joinKey current part)
                ⟨time, workspacePath (joinKey current part)⟩ } :
                  Store).files.has k = false := hbelow
        refine (ih hrest hbelow').imp ?_ ?_
        · rintro _ r ⟨times, htimes, hstore⟩
          rw [missing_set hnew] at htimes hstore
          refine ⟨fun i => i.casesOn time times, fun i hi => ?_, ?_⟩
          · cases i with
            | zero => exact htime
            | succ i => exact htimes i (Nat.lt_of_succ_lt_succ hi)
          · rw [hstore, withDirectories_cons]
            rfl
        · rintro _ r ⟨times, i, hi, htimes, hclock, hstore⟩
          rw [missing_set hnew] at hi hstore
          refine ⟨fun i => i.casesOn time times, i + 1, Nat.succ_lt_succ hi, fun j hj => ?_,
            hclock, ?_⟩
          · cases j with
            | zero => exact htime
            | succ j => exact htimes j (Nat.lt_of_succ_lt_succ hj)
          · rw [hstore, take_succ_cons, withDirectories_cons]
            rfl

/-- Where a key on the way is a file, every key in front of it is a directory. -/
theorem Valid.ends_ensureDirectoryFrom_of_file (hs : s.Valid) (hparts : ∀ part ∈ parts, part ≠ [])
    (hk : k ∈ pathsFrom current parts) (hfile : s.files.has k = true) :
    (StoreMethod.ensureDirectoryFrom current parts).Ends ⟨s, clock⟩ (fun _ _ => False)
      fun _ r => r.store = s := by
  induction parts generalizing current with
  | nil => cases hk
  | cons part parts ih =>
    obtain ⟨hpart, hrest⟩ := forall_mem_cons.1 hparts
    have hne : joinKey current part ≠ [] := joinKey_ne_nil current hpart
    unfold StoreMethod.ensureDirectoryFrom StoreMethod.ensurePart
    rw [ends_bind]
    refine ends_read (ends_unless (fun _ => rfl) fun hno => ?_)
    rcases mem_cons.1 hk with rfl | hbelow
    · exact absurd hfile hno
    · have hhas : s.directories.has (joinKey current part) = true :=
        hs.has_of_below (pathsFrom_below hne hbelow) (.inr hfile)
      rw [ends_ite]
      exact ⟨fun _ => ih hrest hbelow, fun hmissing => absurd hhas hmissing⟩

/-- What is stopped behind its first change has made one. -/
theorem interrupted_createDirectory_iff {path : Text} {recursive : Bool}
    (hkey : normalizeWorkspacePath path = .ok key) :
    s.Interrupted clock (.createDirectory path recursive) ↔
      recursive = true ∧ (∀ k ∈ pathsTo key, s.files.has k = false) ∧
        ∃ i, 0 < i ∧ i < (s.missing (pathsTo key)).length ∧ (∀ j < i, clock.Ticks j) ∧
          ¬clock.Ticks i := by
  constructor
  · rintro (_ | ⟨hkey', hfiles, hpos, hlt, hbefore, hclock⟩)
    obtain rfl := Except.ok.inj (hkey.symm.trans hkey')
    exact ⟨rfl, hfiles, _, hpos, hlt, hbefore, hclock⟩
  · rintro ⟨rfl, hfiles, i, hpos, hlt, hbefore, hclock⟩
    exact .createDirectory hkey hfiles hpos hlt hbefore hclock

theorem joinKey_intercalate_cons (current part next : Text) (rest : List Text) :
    joinKey current (List.intercalate ['/'] (part :: next :: rest)) =
      joinKey current part ++ '/' :: List.intercalate ['/'] (next :: rest) := by
  rw [intercalate_cons_cons]
  unfold joinKey
  split <;> simp

theorem intercalate_mem_pathsFrom (hparts : ∀ part ∈ parts, part ≠ []) (hne : parts ≠ [])
    (current : Text) :
    joinKey current (List.intercalate ['/'] parts) ∈ pathsFrom current parts := by
  induction parts generalizing current with
  | nil => exact absurd rfl hne
  | cons part parts ih =>
    obtain ⟨hpart, hrest⟩ := forall_mem_cons.1 hparts
    cases parts with
    | nil => simp [pathsFrom]
    | cons =>
      have hmem := ih hrest (cons_ne_nil _ _) (joinKey current part)
      rw [joinKey.eq_def (joinKey current part), if_neg (joinKey_ne_nil current hpart)] at hmem
      rw [joinKey_intercalate_cons]
      exact mem_cons_of_mem _ hmem

/-- The keys on the way to an entry hold it. -/
theorem atOrBelow_intercalate (hparts : ∀ part ∈ parts, part ≠ [])
    (hk : k ∈ pathsFrom current parts) :
    SepPath.AtOrBelow '/' k (joinKey current (List.intercalate ['/'] parts)) := by
  induction parts generalizing current with
  | nil => cases hk
  | cons part parts ih =>
    obtain ⟨hpart, hrest⟩ := forall_mem_cons.1 hparts
    cases parts with
    | nil =>
      rw [pathsFrom, pathsFrom, mem_singleton] at hk
      rw [hk, intercalate_singleton]
      exact atOrBelow_self _
    | cons =>
      rw [joinKey_intercalate_cons]
      rcases mem_cons.1 hk with rfl | htail
      · exact (below_append _ _).atOrBelow
      · have hat := ih hrest htail
        rwa [joinKey.eq_def (joinKey current part), if_neg (joinKey_ne_nil current hpart)] at hat

/-- A key is the last one on its own way. -/
theorem mem_pathsTo_self (hkey : CanonicalKey key) : key ∈ pathsTo key := by
  have hparts : ∀ part ∈ key.splitOn '/', part ≠ [] := fun part hpart => (hkey part hpart).1
  have hfilter : (key.splitOn '/').filter (· ≠ []) = key.splitOn '/' :=
    filter_eq_self.2 fun part hpart => by simpa using hparts part hpart
  have hne : key.splitOn '/' ≠ [] := by
    simp only [List.splitOn]
    exact splitOnP_ne_nil _ _
  have hmem := intercalate_mem_pathsFrom hparts hne []
  rwa [intercalate_splitOn, joinKey, if_pos rfl, ← hfilter] at hmem

theorem atOrBelow_of_mem_pathsTo (hk : k ∈ pathsTo key) (hkey : CanonicalKey key) :
    SepPath.AtOrBelow '/' k key := by
  have hfilter : (key.splitOn '/').filter (· ≠ []) = key.splitOn '/' :=
    filter_eq_self.2 fun part hpart => by simpa using (hkey part hpart).1
  rw [pathsTo, hfilter] at hk
  have hat := atOrBelow_intercalate (fun part hpart => (hkey part hpart).1) hk
  rwa [intercalate_splitOn, joinKey, if_pos rfl] at hat

theorem Valid.ends_createDirectory (hs : s.Valid) (path : Text) (recursive : Bool) :
    (StoreMethod.createDirectory path recursive).Ends ⟨s, clock⟩
      (fun _ r => s.Accepts engine clock (.createDirectory path recursive) r.store)
      fun _ r => s.Rejects clock (.createDirectory path recursive) r.store := by
  have hreject : ∀ {key : Text}, normalizeWorkspacePath path = .ok key →
      ¬(recursive = true ∧ ∀ k ∈ pathsTo key, s.files.has k = false) →
        s.Rejects clock (.createDirectory path recursive) s := fun hkey hno =>
    .unchanged fun h => hno (((interrupted_createDirectory_iff hkey).1 h).imp_right And.left)
  unfold StoreMethod.createDirectory
  rw [ends_bind, ends_ofExcept]
  refine ⟨fun key hkey => ends_read ?_, fun e he => .unchanged ?_⟩
  · rw [ends_ite]
    refine ⟨?_, fun hne => ?_⟩
    · rintro rfl
      exact .rootDirectory hkey
    have hcanonical : CanonicalKey key :=
      (canonicalPath_of_normalizeWorkspacePath hkey).resolve_left hne
    rw [ends_ite]
    refine ⟨fun hfile => hreject hkey fun h => ?_, fun hfile => ?_⟩
    · have hno := h.2 key (mem_pathsTo_self hcanonical)
      rw [hfile] at hno
      cases hno
    rw [ends_ite]
    refine ⟨fun hrecursive => ?_, fun hrecursive => ?_⟩
    · subst hrecursive
      have hparts : ∀ part ∈ (key.splitOn '/').filter (· ≠ []), part ≠ [] :=
        fun part hpart => by simpa using (mem_filter.1 hpart).2
      rw [ends_bind]
      by_cases hfiles : ∀ k ∈ pathsTo key, s.files.has k = false
      · refine (ends_ensureDirectoryFrom hparts hfiles).imp ?_ ?_
        · rintro _ ⟨_, _⟩ ⟨times, htimes, rfl⟩
          exact .ensureDirectory hkey hne hfiles htimes
        · rintro _ ⟨_, _⟩ ⟨times, i, hi, htimes, hclock, rfl⟩
          rcases Nat.eq_zero_or_pos i with rfl | hpos
          · refine .unchanged fun h => ?_
            obtain ⟨-, -, j, hj, -, hbefore, -⟩ := (interrupted_createDirectory_iff hkey).1 h
            exact hclock (hbefore 0 hj)
          · exact .ensureDirectory hkey hfiles hpos hi htimes hclock
      · have hexists : ∃ k ∈ pathsTo key, s.files.has k = true := by
          by_contra hnone
          exact hfiles fun k hk => by simpa using fun h => hnone ⟨k, hk, h⟩
        obtain ⟨k, hk, hkfile⟩ := hexists
        refine (hs.ends_ensureDirectoryFrom_of_file hparts hk hkfile).imp (fun _ _ => False.elim) ?_
        rintro _ ⟨_, _⟩ rfl
        exact hreject hkey fun h => hfiles h.2
    · have hkeep := hreject hkey fun h => hrecursive h.1
      have hfalse : recursive = false := by simpa using hrecursive
      subst hfalse
      refine ends_check (fun _ => hkeep) fun _ hparent => ?_
      refine ends_unless (fun _ => hkeep) fun hdir => ?_
      refine ends_timed (fun _ _ => hkeep) fun time htime => ?_
      rw [directoryRecord_workspacePath]
      exact .createDirectory hkey hne (by simpa using hfile) hparent (by simpa using hdir) htime
  · rintro (_ | ⟨hkey, -⟩)
    rw [he] at hkey
    cases hkey

/-! ### Renaming -/

theorem replacePathPrefix_eq_rebase (h : SepPath.AtOrBelow '/' source key) :
    StoreMethod.replacePathPrefix key source target = SepPath.rebase source target key := by
  rcases h with rfl | hbelow
  · rw [StoreMethod.replacePathPrefix, if_pos rfl, rebase_self]
  · obtain ⟨rest, rfl⟩ := below_iff.1 hbelow
    rw [StoreMethod.replacePathPrefix, if_neg hbelow.ne, rebase_append]
    simp

/-- The round of a loop sets an entry, up to the time in its record, and may take the time. -/
def SetsEntry {ρ : Type} (rel : ρ → ρ → Prop) (timed : Bool) (entry : Text × ρ)
    (m : OrdMap Text ρ) (r : StoreRun) (round : StoreM (OrdMap Text ρ)) : Prop :=
  round.Ends r
    (fun m' r' => r' = ⟨r.store, if timed = true then r.clock.rest else r.clock⟩ ∧
      (timed = true → r.clock.Ticks 0) ∧ ∃ record, rel entry.2 record ∧ m' = m.set entry.1 record)
    fun _ r' => r'.store = r.store ∧ timed = true ∧ ¬r.clock.Ticks 0

/-- A loop that sets an entry in every round, related to the one that a map of the entries has, and
takes the time in some of the rounds. -/
theorem ends_foldlM_set {ρ : Type} (rel : ρ → ρ → Prop) {entry : Text × ρ → Text × ρ}
    {timed : Text × ρ → Bool} {round : OrdMap Text ρ → Text × ρ → StoreM (OrdMap Text ρ)}
    (hround : ∀ m e r, SetsEntry rel (timed e) (entry e) m r (round m e))
    (entries : List (Text × ρ)) (m : OrdMap Text ρ) {m' : OrdMap Text ρ} (hkeys : m'.keys = m.keys)
    (hm : ∀ k, Option.Rel rel (m.get k) (m'.get k)) (r : StoreRun) :
    (entries.foldlM round m').Ends r
      (fun built r' => r' = ⟨r.store, r.clock.drop (entries.countP timed)⟩ ∧
        (∀ i < entries.countP timed, r.clock.Ticks i) ∧
        built.keys = (m.setAll (entries.map entry)).keys ∧
        ∀ k, Option.Rel rel ((m.setAll (entries.map entry)).get k) (built.get k))
      fun _ r' => r'.store = r.store ∧ ∃ i < entries.countP timed, ¬r.clock.Ticks i := by
  induction entries generalizing m m' r with
  | nil => exact ⟨rfl, fun i hi => absurd hi (Nat.not_lt_zero i), hkeys, hm⟩
  | cons e entries ih =>
    rw [foldlM_cons, ends_bind]
    refine (hround m' e r).imp ?_ ?_
    · rintro _ _ ⟨rfl, hticks, record, hrecord, rfl⟩
      rw [map_cons, setAll_cons, countP_cons]
      have hget : ∀ k, Option.Rel rel ((m.set (entry e).1 (entry e).2).get k)
          ((m'.set (entry e).1 record).get k) := by
        intro k
        rw [get_set, get_set]
        split
        · exact .some hrecord
        · exact hm k
      -- the rest of the loop starts behind the reading of this round, if there is one
      refine (ih _ (keys_set_congr hkeys _ _ _) hget _).imp ?_ ?_
      · rintro built _ ⟨rfl, hrest, hbuilt⟩
        cases htimed : timed e with
        | false =>
          simp only [htimed] at hrest ⊢
          exact ⟨rfl, hrest, hbuilt⟩
        | true =>
          simp only [htimed, if_true] at hrest ⊢
          refine ⟨rfl, fun i hi => ?_, hbuilt⟩
          cases i with
          | zero => exact hticks htimed
          | succ i => exact hrest i (Nat.lt_of_succ_lt_succ hi)
      · rintro _ r' ⟨hstore, i, hi, hclock⟩
        cases htimed : timed e with
        | false =>
          simp only [htimed] at hclock ⊢
          exact ⟨hstore, i, hi, hclock⟩
        | true =>
          simp only [htimed, if_true] at hclock ⊢
          exact ⟨hstore, i + 1, Nat.succ_lt_succ hi, hclock⟩
    · rintro _ r' ⟨hstore, htimed, hclock⟩
      refine ⟨hstore, 0, ?_, hclock⟩
      rw [countP_cons, htimed]
      exact Nat.succ_pos _

theorem lt_of_nonNegativeTime {value : Option Int} {time : ℕ}
    (h : nonNegativeTime value = .ok time) : time < 2 ^ 53 := by
  unfold nonNegativeTime at h
  split at h
  next number =>
    split at h
    next hbounds =>
      obtain rfl := Except.ok.inj h
      omega
    · cases h
  · cases h

/-- The entry that a directory becomes, at the time 0. -/
def movedDirectory (source target : Text) (e : Text × StoreDirectory) : Text × StoreDirectory :=
  (SepPath.move '/' source target e.1,
    if SepPath.AtOrBelow '/' source e.1 then ⟨0, workspacePath (SepPath.rebase source target e.1)⟩
    else e.2)

/-- The entry that a file becomes, at the time 0. -/
def movedFile (source target : Text) (e : Text × StoreFile) : Text × StoreFile :=
  (if SepPath.Below '/' source e.1 then SepPath.rebase source target e.1 else e.1,
    if SepPath.Below '/' source e.1 then
      { e.2 with
        mtimeMs := 0
        path := workspacePreopenPath ++ '/' :: SepPath.rebase source target e.1 }
    else e.2)

/-- An entry that is moved gets the time, and any other stays as it is. -/
theorem setsEntry_ite {ρ : Type} {rel : ρ → ρ → Prop} {c p : Prop} [Decidable c] [Decidable p]
    (hiff : c ↔ p) {e entry : Text × ρ} {key : Text} {stamped : ℕ → ρ}
    (hmoved : p → entry.1 = key ∧ ∀ time < 2 ^ 53, rel entry.2 (stamped time))
    (hkept : ¬p → entry = e ∧ rel e.2 e.2) (m : OrdMap Text ρ) (r : StoreRun) :
    SetsEntry rel (decide p) entry m r (if c then do
      let mtimeMs ← currentTime
      return m.set key (stamped mtimeMs)
    else return m.set e.1 e.2) := by
  unfold SetsEntry
  rw [ends_ite, hiff]
  refine ⟨fun hp => ?_, fun hp => ?_⟩
  · obtain ⟨rfl, hstamped⟩ := hmoved hp
    simp only [hp, decide_true, if_true]
    refine ends_timed (fun hclock _ => ⟨rfl, trivial, hclock⟩) fun time htime => ?_
    exact ⟨rfl, fun _ => ⟨time, htime⟩, stamped time,
      hstamped time (lt_of_nonNegativeTime htime), rfl⟩
  · obtain ⟨rfl, hrel⟩ := hkept hp
    simp only [hp, decide_false, Bool.false_eq_true, if_false]
    exact ⟨rfl, False.elim, entry.2, hrel, rfl⟩

theorem setsEntry_moveDirectoryEntry (hsource : source ≠ []) (target : Text)
    (m : OrdMap Text StoreDirectory) (e : Text × StoreDirectory) (r : StoreRun) :
    SetsEntry RestampedDirectory (SepPath.AtOrBelow '/' source e.1)
      (movedDirectory source target e) m r (StoreMethod.moveDirectoryEntry source target m e) := by
  refine setsEntry_ite (by simp [isChildPath, hsource, SepPath.AtOrBelow]) (fun hat => ?_)
    (fun hat => ?_) m r
  · rw [movedDirectory, if_pos hat, move_of_atOrBelow target hat, replacePathPrefix_eq_rebase hat]
    exact ⟨rfl, fun time htime => ⟨rfl, fun _ => htime⟩⟩
  · rw [movedDirectory, if_neg hat, move_of_not_atOrBelow target hat]
    exact ⟨rfl, rfl, id⟩

theorem setsEntry_moveFileEntry (hsource : source ≠ []) (target : Text) (m : OrdMap Text StoreFile)
    (e : Text × StoreFile) (r : StoreRun) :
    SetsEntry RestampedFile (SepPath.Below '/' source e.1) (movedFile source target e) m r
      (StoreMethod.moveFileEntry source target m e) := by
  refine setsEntry_ite (by simp [isChildPath, hsource]) (fun hbelow => ?_) (fun hbelow => ?_) m r
  · rw [movedFile, if_pos hbelow, if_pos hbelow, replacePathPrefix_eq_rebase hbelow.atOrBelow]
    exact ⟨rfl, fun time htime => ⟨rfl, rfl, fun _ => htime⟩⟩
  · rw [movedFile, if_neg hbelow, if_neg hbelow]
    exact ⟨rfl, rfl, rfl, id⟩

theorem ends_renameDirectory (hsource : source ≠ []) (hne : target ≠ source) (r : StoreRun) :
    (StoreMethod.renameDirectory source target).Ends r
      (fun _ r' => isChildPath source target = false ∧
        (∀ i < r.store.readings source, r.clock.Ticks i) ∧
        (r.store.moveDirectory 0 source target).Restamped r'.store)
      fun _ r' => r'.store = r.store ∧
        (isChildPath source target = true ∨ ∃ i < r.store.readings source, ¬r.clock.Ticks i) := by
  unfold StoreMethod.renameDirectory
  refine ends_read ?_
  rw [ends_ite]
  refine ⟨fun h => absurd h hne, fun _ => ?_⟩
  rw [ends_ite]
  refine ⟨fun hinside => ⟨rfl, .inl hinside⟩, fun hinside => ?_⟩
  rw [ends_bind]
  refine (ends_foldlM_set RestampedDirectory (setsEntry_moveDirectoryEntry hsource target)
    r.store.directories.entries OrdMap.empty rfl (fun _ => .none) r).imp ?_ ?_
  · rintro movedDirectories _ ⟨rfl, hfirst, hkeys, hdirectories⟩
    rw [ends_bind]
    refine (ends_foldlM_set RestampedFile (setsEntry_moveFileEntry hsource target)
      r.store.files.entries OrdMap.empty rfl (fun _ => .none) _).imp ?_ ?_
    · rintro movedFiles _ ⟨rfl, hlast, -, hfiles⟩
      rw [ends_setStore]
      refine ⟨by simpa using hinside, fun i hi => ?_, hkeys, hdirectories, hfiles⟩
      by_cases hlt : i < r.store.directories.entries.countP
          (fun e => SepPath.AtOrBelow '/' source e.1)
      · exact hfirst i hlt
      · rw [readings] at hi
        have hticks := hlast (i - r.store.directories.entries.countP
          (fun e => SepPath.AtOrBelow '/' source e.1)) (by omega)
        rwa [Clock.drop_ticks, Nat.sub_add_cancel (Nat.not_lt.1 hlt)] at hticks
    · rintro _ r' ⟨hstore, i, hi, hclock⟩
      refine ⟨hstore, .inr ⟨i + _, ?_, (Clock.drop_ticks _ _ _).not.1 hclock⟩⟩
      rw [readings]
      omega
  · rintro _ r' ⟨hstore, i, hi, hclock⟩
    refine ⟨hstore, .inr ⟨i, ?_, hclock⟩⟩
    rw [readings]
    omega

/-- A renaming that is refused before it deletes anything changes nothing. -/
theorem rejects_rename_unchanged
    (h : ∀ source target, s.Movable fromPath toPath source target → s.files.has source = false) :
    s.Rejects clock (.rename fromPath toPath) s := by
  refine .unchanged ?_
  rintro (⟨hmovable, hfile, -⟩ | _)
  rw [h _ _ hmovable] at hfile
  cases hfile

theorem ends_rename (fromPath toPath : Text) :
    (StoreMethod.rename fromPath toPath).Ends ⟨s, clock⟩
      (fun _ r => s.Accepts engine clock (.rename fromPath toPath) r.store)
      fun _ r => s.Rejects clock (.rename fromPath toPath) r.store := by
  unfold StoreMethod.rename
  rw [ends_bind, ends_ofExcept]
  refine ⟨fun source hsource => ?_, fun e he => rejects_rename_unchanged ?_⟩
  swap
  · intro source target h
    rw [h.reads_source] at he
    cases he
  rw [ends_bind, ends_ofExcept]
  refine ⟨fun target htarget => ends_read ?_, fun e he => rejects_rename_unchanged ?_⟩
  swap
  · intro source target h
    rw [h.reads_target] at he
    cases he
  -- from here on the two keys are known
  have hreject :
      (∀ hmovable : s.Movable fromPath toPath source target, s.files.has source = false) →
      s.Rejects clock (.rename fromPath toPath) s := by
    intro hno
    refine rejects_rename_unchanged fun source' target' h => ?_
    obtain rfl := Except.ok.inj (hsource.symm.trans h.reads_source)
    obtain rfl := Except.ok.inj (htarget.symm.trans h.reads_target)
    exact hno h
  rw [ends_ite]
  refine ⟨fun hempty => hreject fun h => ?_, fun hempty => ?_⟩
  · exact absurd hempty (not_or.2 ⟨h.source_ne, h.target_ne⟩)
  rw [ends_bind, ends_ofExcept]
  refine ⟨fun _ hparent => ?_, fun e he => hreject fun h => ?_⟩
  swap
  · rw [h.parent] at he
    cases he
  rw [ends_ite]
  refine ⟨fun htaken => hreject fun h => ?_, fun hfree => ?_⟩
  · simp [h.file_free, h.directory_free] at htaken
  obtain ⟨hsource_ne, htarget_ne⟩ := not_or.1 hempty
  obtain ⟨hfile_free, hdirectory_free⟩ := not_or.1 hfree
  have hmovable : s.Movable fromPath toPath source target :=
    ⟨hsource, htarget, hsource_ne, htarget_ne, hparent, by simpa using hfile_free,
      by simpa using hdirectory_free⟩
  cases hrecord : s.files.get source with
  | some =>
    rw [ends_bind, ends_deleteFileKey]
    refine ends_timed (fun hclock _ => ?_) fun time htime => ?_
    · exact .renameFile hmovable (has_of_get hrecord) hclock
    · exact .renameFile hmovable hrecord htime
  | none =>
    have hfile : s.files.has source = false := (has_eq_false_iff _ _).2 hrecord
    have hkeep := hreject fun _ => hfile
    rw [ends_ite]
    refine ⟨fun hdir => ?_, fun _ => hkeep⟩
    have hne : target ≠ source := by
      rintro rfl
      exact hdirectory_free hdir
    refine (ends_renameDirectory hsource_ne hne ⟨s, clock⟩).imp ?_ ?_
    · rintro _ r ⟨hinside, htimes, hmoved⟩
      exact .renameDirectory hmovable hfile hdir hinside htimes hmoved
    · rintro _ ⟨_, _⟩ ⟨rfl, -⟩
      exact hkeep

/-! ### Snapshots -/

theorem ends_loadSnapshot (s : Store) (engine : Base64Engine) (clock : Clock)
    (snapshot : Option SnapshotObject) :
    (StoreMethod.loadSnapshot engine snapshot).Ends ⟨s, clock⟩
      (fun _ r => s.Accepts engine clock (.importSnapshot snapshot) r.store)
      fun _ r => s.Rejects clock (.importSnapshot snapshot) r.store := by
  have hkeep : s.Rejects clock (.importSnapshot snapshot) s := .unchanged nofun
  unfold StoreMethod.loadSnapshot
  refine ends_timed (fun _ _ => hkeep) fun time htime => ?_
  cases snapshot with
  | none => exact hkeep
  | some =>
    refine ends_unless (fun _ => hkeep) fun hversion => ?_
    refine ends_check (fun _ => hkeep) fun directories hdirectories => ?_
    rw [ends_bind, ends_mk_pure]
    refine ⟨fun files hfiles => ?_, fun _ _ => hkeep⟩
    refine ends_check (fun _ => hkeep) fun _ hgraph => ?_
    rw [not_or, not_not, not_not] at hversion
    exact .importSnapshot htime hversion hdirectories hfiles hgraph

/-- There is nothing else that a call does. -/
theorem Valid.ends_runOp (hs : s.Valid) (engine : Base64Engine) (clock : Clock) (op : StoreOp) :
    (runOp engine op).Ends ⟨s, clock⟩ (fun _ r => s.Accepts engine clock op r.store)
      fun _ r => s.Rejects clock op r.store := by
  cases op with
  | writeFile path content =>
    rw [runOp, ends_bind]
    exact ends_writeFile path content
  | deleteFile path => exact ends_deleteFile path
  | createDirectory path recursive =>
    rw [runOp, ends_bind]
    exact hs.ends_createDirectory path recursive
  | deleteDirectory path recursive => exact ends_deleteDirectory path recursive
  | rename fromPath toPath => exact ends_rename fromPath toPath
  | importSnapshot snapshot => exact ends_loadSnapshot s engine clock snapshot

theorem Valid.accepts_of_callOp (hs : s.Valid) (h : s.callOp engine o = (.ok (), r)) :
    s.Accepts engine o.clock o.op r.store := by
  have hends := hs.ends_runOp engine o.clock o.op
  rw [ExceptT.Ends, show runOp engine o.op ⟨s, o.clock⟩ = (.ok (), r) from h] at hends
  exact hends

theorem Valid.rejects_of_callOp (hs : s.Valid) {fault : StoreFault}
    (h : s.callOp engine o = (.error fault, r)) : s.Rejects o.clock o.op r.store := by
  have hends := hs.ends_runOp engine o.clock o.op
  rw [ExceptT.Ends, show runOp engine o.op ⟨s, o.clock⟩ = (.error fault, r) from h] at hends
  exact hends

/-- A call that is stopped behind its first change is rejected. -/
theorem Accepts.not_interrupted (h : s.Accepts engine clock op s') : ¬s.Interrupted clock op := by
  rintro (⟨hmovable, hfile, hclock⟩ | ⟨hkey, hfiles, hpos, hlt, hbefore, hclock⟩)
  · cases h with
    | renameFile h hrecord htime => exact hclock ⟨_, htime⟩
    | renameDirectory h hno hdir hinside htimes hmoved =>
      obtain rfl := Except.ok.inj (hmovable.reads_source.symm.trans h.reads_source)
      rw [hfile] at hno
      cases hno
  · cases h with
    | rootDirectory hkey' =>
      obtain rfl := Except.ok.inj (hkey.symm.trans hkey')
      exact absurd hlt (Nat.not_lt_zero _)
    | ensureDirectory hkey' hne hfiles' htimes =>
      obtain rfl := Except.ok.inj (hkey.symm.trans hkey')
      exact hclock ⟨_, htimes _ hlt⟩

/-! ### The cases are the ones in which a call is accepted -/

theorem Movable.ends_rename
    (h : s.Movable fromPath toPath source target) {Q : Unit → StoreRun → Prop}
    {E : StoreFault → StoreRun → Prop}
    (hrest : (match s.files.get source with
      | some record => (do
          deleteFileKey source
          let mtimeMs ← currentTime
          setFile target { record with mtimeMs := mtimeMs, path := workspacePath target } :
            StoreM Unit)
      | none =>
          if s.directories.has source = true then StoreMethod.renameDirectory source target
          else reject .notFound "workspace source is unavailable").Ends ⟨s, clock⟩ Q E) :
    (StoreMethod.rename fromPath toPath).Ends ⟨s, clock⟩ Q E := by
  unfold StoreMethod.rename
  refine ends_known h.reads_source (ends_known h.reads_target (ends_read ?_))
  rw [if_neg (not_or.2 ⟨h.source_ne, h.target_ne⟩)]
  refine ends_known h.parent ?_
  rw [if_neg (by simp [h.file_free, h.directory_free])]
  exact hrest

/-- A call that some case describes is not refused. -/
theorem Accepts.ends_runOp (h : s.Accepts engine clock op s') :
    (runOp engine op).Ends ⟨s, clock⟩ (fun _ _ => True) fun _ _ => False := by
  cases h with
  | writeFile hkey hne hdir hparent hbytes htime =>
    rw [runOp, ends_bind]
    unfold StoreMethod.writeFile
    refine ends_known hkey (ends_read ?_)
    rw [if_neg hne, if_neg (by simp [hdir])]
    exact ends_known hparent (ends_known hbytes (ends_timed_known htime trivial))
  | deleteFile hkey hfile =>
    unfold runOp StoreMethod.deleteFile
    refine ends_known hkey (ends_read ?_)
    rw [if_pos hfile]
    trivial
  | rootDirectory hkey =>
    rw [runOp, ends_bind]
    unfold StoreMethod.createDirectory
    refine ends_known hkey (ends_read ?_)
    rw [if_pos rfl]
    trivial
  | createDirectory hkey hne hfile hparent hdir htime =>
    rw [runOp, ends_bind]
    unfold StoreMethod.createDirectory
    refine ends_known hkey (ends_read ?_)
    rw [if_neg hne, if_neg (by simp [hfile]), if_neg Bool.false_ne_true]
    refine ends_known hparent ?_
    rw [if_neg (by simp [hdir])]
    exact ends_timed_known htime trivial
  | @ensureDirectory _ key _ hkey hne hfiles htimes =>
    have hself : s.files.has key = false :=
      hfiles key (mem_pathsTo_self
        ((canonicalPath_of_normalizeWorkspacePath hkey).resolve_left hne))
    have hparts : ∀ part ∈ (key.splitOn '/').filter (· ≠ []), part ≠ [] :=
      fun part hpart => by simpa using (mem_filter.1 hpart).2
    rw [runOp, ends_bind]
    unfold StoreMethod.createDirectory
    refine ends_known hkey (ends_read ?_)
    rw [if_neg hne, if_neg (by simp [hself]), if_pos rfl, ends_bind]
    refine (ends_ensureDirectoryFrom hparts hfiles).imp (fun _ _ _ => trivial) ?_
    rintro _ _ ⟨_, i, hi, -, hclock, -⟩
    exact hclock ⟨_, htimes i hi⟩
  | @deleteDirectory _ _ recursive hkey hne hdir hempty =>
    unfold runOp StoreMethod.deleteDirectory
    refine ends_known hkey (ends_read ?_)
    rw [if_neg hne, if_neg (by simp [hdir]), if_neg]
    · trivial
    · rintro ⟨hrecursive, hchildren⟩
      simp [hrecursive, hchildren] at hempty
  | renameFile hmovable hfile htime =>
    refine hmovable.ends_rename ?_
    rw [hfile]
    exact ends_timed_known htime trivial
  | renameDirectory hmovable hfile hdir hinside htimes hmoved =>
    refine hmovable.ends_rename ?_
    rw [(has_eq_false_iff _ _).1 hfile]
    rw [if_pos hdir]
    refine (ends_renameDirectory hmovable.source_ne ?_ ⟨s, clock⟩).imp (fun _ _ _ => trivial) ?_
    · rintro rfl
      rw [hmovable.directory_free] at hdir
      cases hdir
    · rintro _ _ ⟨-, hno | ⟨i, hi, hclock⟩⟩
      · rw [hinside] at hno
        cases hno
      · exact hclock (htimes i hi)
  | importSnapshot htime hversion hdirectories hfiles hgraph =>
    unfold runOp StoreMethod.loadSnapshot
    refine ends_timed_known htime ?_
    dsimp only
    rw [if_neg (by simp [hversion])]
    refine ends_known hdirectories ?_
    rw [ends_bind, ends_mk_pure, hfiles]
    refine ⟨?_, nofun⟩
    rintro _ ⟨⟩
    exact ends_known hgraph trivial

theorem Accepts.callOp_eq_ok (h : s.Accepts engine clock op s') :
    ∃ r, s.callOp engine ⟨clock, op⟩ = (.ok (), r) := by
  have hends := h.ends_runOp
  unfold ExceptT.Ends at hends
  unfold callOp
  generalize runOp engine op ⟨s, clock⟩ = result at hends ⊢
  rcases result with ⟨_ | _, r⟩
  · exact hends.elim
  · exact ⟨r, rfl⟩

end Store

end WasmHost

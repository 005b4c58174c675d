import WasmHost.Core.CommandLookup
import WasmHost.Lib.NameTree

/-!
# The registry of virtual executables

`VirtualExecutableRegistry::register` and `unregister` of `lib.rs`. A registered path is mapped to
the token that it was registered under, and a launcher stands there in the file system.

The file system is a `TmpFileSystem`, a parameter: what it holds is a tree, and an operation that
fails leaves it as it is (`Sandbox.Lawful`). The paths of a call are checked first and put in place
one after another then, so that a path that cannot be put in place leaves those before it behind.
`Sandbox.transactional_iff` says when that does not show.
-/

namespace WasmHost

open OrdMap List

/-- The operations of a `TmpFileSystem` on its states, and `virtual_executable_wasm`. An operation
that fails has no next state. -/
structure Sandbox (σ : Type) where
  tree : σ → NameTree Text Bytes
  createDirAll : List Text → σ → Except String σ
  /-- `new_open_options` with `create`, `truncate` and `write`. -/
  openTruncated : List Text → σ → Except String σ
  /-- `write_all` and `flush` on a file that has been opened. -/
  writeAll : List Text → Bytes → σ → Except String σ
  removeFile : List Text → σ → Except String σ
  virtualExecutableWasm : Text → Except String Bytes

namespace Sandbox

variable {σ : Type}

/-- The operations do what their names say. The template of the launcher assembles for every
path. -/
structure Lawful (fs : Sandbox σ) : Prop where
  createDirAll_ok : ∀ {path s}, (fs.tree s).Open path →
    ∃ s', fs.createDirAll path s = .ok s' ∧ (fs.tree s).MakesDirectories path (fs.tree s')
  createDirAll_error : ∀ {path s}, ¬(fs.tree s).Open path →
    ∃ error, fs.createDirAll path s = .error error
  openTruncated_ok : ∀ {path s}, path ≠ [] → (fs.tree s).node path.dropLast = some .directory →
    (fs.tree s).node path ≠ some .directory →
      ∃ s', fs.openTruncated path s = .ok s' ∧ (fs.tree s).PutsFile path [] (fs.tree s')
  openTruncated_error : ∀ {path s}, (fs.tree s).node path = some .directory →
    ∃ error, fs.openTruncated path s = .error error
  writeAll_ok : ∀ {path data s before}, (fs.tree s).node path = some (.file before) →
    ∃ s', fs.writeAll path data s = .ok s' ∧ (fs.tree s).PutsFile path data (fs.tree s')
  removeFile_ok : ∀ {path s data}, (fs.tree s).node path = some (.file data) →
    ∃ s', fs.removeFile path s = .ok s' ∧ (fs.tree s').node path = none ∧
      ∀ q, q ≠ path → (fs.tree s').node q = (fs.tree s).node q
  removeFile_error : ∀ {path s}, (∀ data, (fs.tree s).node path ≠ some (.file data)) →
    ∃ error, fs.removeFile path s = .error error
  virtualExecutableWasm_ok : ∀ path, ∃ wasm, fs.virtualExecutableWasm path = .ok wasm

/-! ### The functions -/

/-- An operation, with the context that its error gets. -/
def perform (context : String) (operation : σ → Except String σ) : ExceptT String (StateM σ) Unit :=
  fun s =>
    match operation s with
    | .ok s' => (.ok (), s')
    | .error _ => (.error context, s)

variable (fs : Sandbox σ)

/-- Creates the directories above a path. -/
def createParentDirectories (path : List Text) : ExceptT String (StateM σ) Unit :=
  perform ("unable to create " ++ String.ofList (pathText path.dropLast))
    (fs.createDirAll path.dropLast)

/-- `write_file_to_fs_blocking`. -/
def writeFileToFsBlocking (path : List Text) (data : Bytes) : ExceptT String (StateM σ) Unit := do
  let context := "unable to write " ++ String.ofList (pathText path)
  fs.createParentDirectories path
  perform context (fs.openTruncated path)
  perform context (fs.writeAll path data)

/-- The launcher is put at a path. -/
def placeLauncher (path : List Text) : ExceptT String (StateM σ) Unit := do
  fs.createParentDirectories path
  let executable ← liftExcept (fs.virtualExecutableWasm (pathText path))
  fs.writeFileToFsBlocking path executable

/-- The loop that puts the paths in place. -/
def registerAll (token : ℕ) : List (List Text) → VirtualExecutableRegistry → σ →
    Except String Unit × VirtualExecutableRegistry × σ
  | [], registry, s => (.ok (), registry, s)
  | path :: rest, registry, s =>
      match fs.placeLauncher path s with
      | (.error error, s') => (.error error, registry, s')
      | (.ok (), s') =>
          registerAll token rest (registry.set path ⟨token, pathText path⟩) s'

/-- The path of a registration. -/
def normalizeExecutable (path : Text) : Except String (List Text) :=
  match normalizePath path with
  | .error error => .error error
  | .ok [] => .error "virtual executable path cannot be the sandbox root"
  | .ok normalized => .ok normalized

/-- What keeps a path from being registered without `replace`. -/
def findConflict (registry : VirtualExecutableRegistry) (s : σ) (path : List Text) :
    Option String :=
  if (fs.tree s).node path ≠ none then
    some ("virtual executable path already exists: " ++ String.ofList (pathText path))
  else if registry.has path then
    some ("virtual executable path is already registered: " ++ String.ofList (pathText path))
  else none

/-- Registers an executable under paths. -/
def register (token : ℕ) (paths : List Text) (replace : Bool)
    (registry : VirtualExecutableRegistry) (s : σ) :
    Except String Unit × VirtualExecutableRegistry × σ :=
  if paths = [] then (.error "virtual executable paths cannot be empty", registry, s)
  else
    match paths.mapM normalizeExecutable with
    | .error error => (.error error, registry, s)
    | .ok normalized =>
        let conflict := if replace then none else normalized.findSome? (fs.findConflict registry s)
        match conflict with
        | some error => (.error error, registry, s)
        | none => fs.registerAll token normalized registry s

/-- A path of a token that is unregistered; a file that cannot be removed is passed over. -/
def unregisterPath (state : VirtualExecutableRegistry × σ) (path : List Text) :
    VirtualExecutableRegistry × σ :=
  (state.1.delete path,
    match fs.removeFile path state.2 with
    | .ok s' => s'
    | .error _ => state.2)

/-- Removes an executable. -/
def unregister (token : ℕ) (registry : VirtualExecutableRegistry) (s : σ) :
    VirtualExecutableRegistry × σ :=
  let paths := (registry.entries.filter fun entry => entry.2.token = token).map Prod.fst
  paths.foldl fs.unregisterPath (registry, s)

/-! ### What is asked of them -/

/-- The paths of a token, and they alone, are taken out of the registry, and their files out of the
file system. -/
structure Unregisters (token : ℕ) (registry : VirtualExecutableRegistry) (s : σ) : Prop where
  get : ∀ path, (fs.unregister token registry s).1.get path =
    (registry.get path).filter fun target => target.token ≠ token
  isFile : ∀ path data,
    (fs.tree (fs.unregister token registry s).2).node path = some (.file data) ↔
      (fs.tree s).node path = some (.file data) ∧
        ∀ target ∈ registry.get path, target.token ≠ token
  isDirectory : ∀ path, (fs.tree (fs.unregister token registry s).2).node path = some .directory ↔
    (fs.tree s).node path = some .directory

/-- A call that fails changes nothing, and what a call that succeeds has registered is taken back by
`unregister`. -/
structure Transactional (token : ℕ) (paths : List Text) (replace : Bool)
    (registry : VirtualExecutableRegistry) (s : σ) : Prop where
  of_error : ∀ {error registry' s'},
    fs.register token paths replace registry s = (.error error, registry', s') →
      (∀ path, registry'.get path = registry.get path) ∧ fs.tree s' = fs.tree s
  of_ok : ∀ {registry' s'},
    fs.register token paths replace registry s = (.ok (), registry', s') →
      fs.Unregisters token registry' s'

/-- The path is registered under the token already, with its launcher in place. -/
def InPlace (token : ℕ) (registry : VirtualExecutableRegistry) (s : σ) (path : List Text) : Prop :=
  registry.get path = some ⟨token, pathText path⟩ ∧
    ∃ wasm, fs.virtualExecutableWasm (pathText path) = .ok wasm ∧
      (fs.tree s).node path = some (.file wasm)

end Sandbox

/-- Files can be put at all of the paths: none of them is a directory or below a file, or below
another one of them. -/
structure Compatible (t : NameTree Text Bytes) (paths : List (List Text)) : Prop where
  takes : ∀ path ∈ paths, t.Takes path
  apart : ∀ path ∈ paths, ∀ other ∈ paths, ¬StrictlyAbove path other

namespace Sandbox

variable {σ : Type} (fs : Sandbox σ) {context error : String} {wasm : Bytes}

/-- The paths before one at which no file can be put are in place already. -/
def StopsAtOnce (token : ℕ) (registry : VirtualExecutableRegistry) (s : σ)
    (paths : List (List Text)) : Prop :=
  ∃ done path rest, paths = done ++ path :: rest ∧
    (∀ p ∈ done, fs.InPlace token registry s p) ∧ ¬(fs.tree s).Takes path

/-- Of paths that pass the checks all can be put in place, or those that are come to nothing new. -/
def RegistersAll (token : ℕ) (paths : List Text) (replace : Bool)
    (registry : VirtualExecutableRegistry) (s : σ) : Prop :=
  ∀ normalized, paths.mapM normalizeExecutable = .ok normalized →
    (replace = true ∨ ∀ path ∈ normalized, fs.findConflict registry s path = none) →
      Compatible (fs.tree s) normalized ∨ fs.StopsAtOnce token registry s normalized

/-! ### One path -/

variable {fs} {path : List Text} {s s' : σ}

theorem perform_of_ok {operation : σ → Except String σ} (h : operation s = .ok s') :
    perform context operation s = (.ok (), s') := by
  rw [perform, h]

theorem perform_of_error {operation : σ → Except String σ} (h : operation s = .error error) :
    perform context operation s = (.error context, s) := by
  rw [perform, h]

variable {t u : NameTree Text Bytes}

/-- On an open way directories are made, and the way stays open. -/
theorem open_of_makesDirectories (hopen : t.Open path) (h : t.MakesDirectories path u) :
    u.Open path := by
  intro q hq content hfile
  rw [(h q).1 ⟨hq, hopen.of_isPrefix hq⟩] at hfile
  cases hfile

/-- Above a directory there is nothing to be made. -/
theorem eq_of_makesDirectories (hdirectory : t.node path = some .directory)
    (h : t.MakesDirectories path.dropLast u) : u = t := by
  refine NameTree.ext_node fun q => ?_
  by_cases hway : q <+: path.dropLast ∧ t.Open q
  · rw [(h q).1 hway]
    by_cases hself : q = path
    · rw [hself, hdirectory]
    · have hne : t.node path ≠ none := by rw [hdirectory]; exact nofun
      have hpre := hway.1.trans (List.dropLast_prefix path)
      exact (NameTree.isDirectory_of_strictlyAbove hne ⟨hpre, hself⟩).symm
  · exact (h q).2 hway

theorem createParentDirectories_of_open (h : fs.Lawful)
    (hopen : (fs.tree s).Open path.dropLast) :
    ∃ s', fs.createParentDirectories path s = (.ok (), s') ∧
      (fs.tree s).MakesDirectories path.dropLast (fs.tree s') := by
  obtain ⟨s', hcreate, hmakes⟩ := h.createDirAll_ok hopen
  exact ⟨s', perform_of_ok hcreate, hmakes⟩

theorem writeFileToFsBlocking_of_takes (h : fs.Lawful) (hne : path ≠ [])
    (htakes : (fs.tree s).Takes path) (data : Bytes) :
    ∃ s', fs.writeFileToFsBlocking path data s = (.ok (), s') ∧
      (fs.tree s).PutsFile path data (fs.tree s') := by
  obtain ⟨hopen, hfree⟩ := htakes
  obtain ⟨s₁, hcreate, hmakes⟩ := createParentDirectories_of_open h hopen
  have hself : ¬path <+: path.dropLast :=
    ((strictlyAbove_iff_dropLast hne).2 (prefix_refl _)).not_isPrefix
  have hparent : (fs.tree s₁).node path.dropLast = some .directory :=
    (hmakes _).1 ⟨prefix_refl _, hopen⟩
  have hfree₁ : (fs.tree s₁).node path ≠ some .directory := by
    rwa [(hmakes path).2 fun hway => hself hway.1]
  obtain ⟨s₂, hopened, hput⟩ := h.openTruncated_ok hne hparent hfree₁
  obtain ⟨s₃, hwritten, hputs⟩ : ∃ s₃, fs.writeAll path data s₂ = .ok s₃ ∧
      (fs.tree s₂).PutsFile path data (fs.tree s₃) := h.writeAll_ok hput.1
  refine ⟨s₃, ?_, hputs.1, fun q => ⟨(hputs.2 q).1, fun hway => ?_⟩⟩
  · rw [writeFileToFsBlocking, ExceptT.bind_apply_of_ok hcreate,
      ExceptT.bind_apply_of_ok (perform_of_ok hopened)]
    exact perform_of_ok hwritten
  · rw [(hputs.2 q).2 hway, (hput.2 q).2 hway,
      (hmakes q).2 fun hq => hway (hq.1.trans (List.dropLast_prefix path))]

/-- Where a file can be put, the launcher is. -/
theorem placeLauncher_of_takes (h : fs.Lawful) (hne : path ≠ [])
    (htakes : (fs.tree s).Takes path) :
    ∃ wasm s', fs.virtualExecutableWasm (pathText path) = .ok wasm ∧
      fs.placeLauncher path s = (.ok (), s') ∧ (fs.tree s).PutsFile path wasm (fs.tree s') := by
  obtain ⟨wasm, hwasm⟩ := h.virtualExecutableWasm_ok (pathText path)
  obtain ⟨s₁, hcreate, hmakes⟩ := createParentDirectories_of_open h htakes.1
  have hself : ¬path <+: path.dropLast :=
    ((strictlyAbove_iff_dropLast hne).2 (prefix_refl _)).not_isPrefix
  have htakes₁ : (fs.tree s₁).Takes path := by
    refine ⟨open_of_makesDirectories htakes.1 hmakes, ?_⟩
    rw [(hmakes path).2 fun hway => hself hway.1]
    exact htakes.2
  obtain ⟨s₂, hwrite, hputs⟩ := writeFileToFsBlocking_of_takes h hne htakes₁ wasm
  refine ⟨wasm, s₂, hwasm, ?_, hputs.1, fun q => ⟨(hputs.2 q).1, fun hway => ?_⟩⟩
  · rw [placeLauncher, ExceptT.bind_apply_of_ok hcreate, hwasm]
    exact hwrite
  · rw [(hputs.2 q).2 hway,
      (hmakes q).2 fun hq => hway (hq.1.trans (List.dropLast_prefix path))]

/-- Where no file can be put, nothing is: either the way is blocked, or a directory stands there
with all the directories above it. -/
theorem placeLauncher_of_not_takes (h : fs.Lawful) (htakes : ¬(fs.tree s).Takes path) :
    ∃ error s', fs.placeLauncher path s = (.error error, s') ∧ fs.tree s' = fs.tree s := by
  by_cases hopen : (fs.tree s).Open path.dropLast
  · have hdirectory : (fs.tree s).node path = some .directory := by
      by_contra hfree
      exact htakes ⟨hopen, hfree⟩
    obtain ⟨wasm, hwasm⟩ := h.virtualExecutableWasm_ok (pathText path)
    obtain ⟨s₁, hcreate, hmakes⟩ := createParentDirectories_of_open h hopen
    have htree₁ := eq_of_makesDirectories hdirectory hmakes
    obtain ⟨s₂, hcreate', hmakes'⟩ :=
      createParentDirectories_of_open (s := s₁) h (by rwa [htree₁])
    have htree₂ := eq_of_makesDirectories (by rwa [htree₁]) hmakes'
    obtain ⟨error, herror⟩ :=
      h.openTruncated_error (s := s₂) (by rw [htree₂, htree₁]; exact hdirectory)
    have hplace : fs.placeLauncher path s =
        (.error ("unable to write " ++ String.ofList (pathText path)), s₂) := by
      rw [placeLauncher, ExceptT.bind_apply_of_ok hcreate, hwasm]
      show fs.writeFileToFsBlocking path wasm s₁ = _
      rw [writeFileToFsBlocking, ExceptT.bind_apply_of_ok hcreate',
        ExceptT.bind_apply_of_error (perform_of_error herror)]
    exact ⟨_, s₂, hplace, htree₂.trans htree₁⟩
  · obtain ⟨error, herror⟩ := h.createDirAll_error hopen
    exact ⟨_, s, ExceptT.bind_apply_of_error (perform_of_error herror) _, rfl⟩

/-! ### The loop -/

variable {token : ℕ} {paths : List (List Text)} {registry registry' : VirtualExecutableRegistry}

/-- A path that is in place stays so when another path of the token is put in place. -/
theorem InPlace.place {other : List Text} (h : fs.InPlace token registry s path) (hne : other ≠ [])
    (htakes : (fs.tree s).Takes other)
    (hwasm : fs.virtualExecutableWasm (pathText other) = .ok wasm)
    (hputs : (fs.tree s).PutsFile other wasm (fs.tree s')) :
    fs.InPlace token (registry.set other ⟨token, pathText other⟩) s' path := by
  obtain ⟨hget, found, hfound, hfile⟩ := h
  by_cases hsame : path = other
  · subst hsame
    exact ⟨get_set_self _ _ _, wasm, hwasm, hputs.1⟩
  · exact ⟨(get_set_ne _ _ hsame).trans hget, found, hfound,
      hputs.isFile htakes hne hsame hfile⟩

/-- What is in place stays so to the end of the loop. -/
theorem InPlace.registerAll (hfs : fs.Lawful) (hne : ∀ p ∈ paths, p ≠ [])
    (h : fs.InPlace token registry s path) {result : Except String Unit}
    (hrun : fs.registerAll token paths registry s = (result, registry', s')) :
    fs.InPlace token registry' s' path := by
  induction paths generalizing registry s with
  | nil =>
    cases hrun
    exact h
  | cons other rest ih =>
    obtain ⟨hother, hrest⟩ := forall_mem_cons.1 hne
    rw [Sandbox.registerAll] at hrun
    by_cases htakes : (fs.tree s).Takes other
    · obtain ⟨wasm, s₁, hwasm, hplace, hputs⟩ := placeLauncher_of_takes hfs hother htakes
      rw [hplace] at hrun
      exact ih hrest (h.place hother htakes hwasm hputs) hrun
    · obtain ⟨error, s₁, hplace, htree⟩ := placeLauncher_of_not_takes hfs htakes
      rw [hplace] at hrun
      cases hrun
      obtain ⟨hget, wasm, hwasm, hfile⟩ := h
      exact ⟨hget, wasm, hwasm, by rwa [htree]⟩

/-- Putting a path in place again changes nothing. -/
theorem InPlace.eq (h : fs.InPlace token registry s path)
    (hwasm : fs.virtualExecutableWasm (pathText path) = .ok wasm)
    (hputs : (fs.tree s).PutsFile path wasm (fs.tree s')) :
    (∀ p, (registry.set path ⟨token, pathText path⟩).get p = registry.get p) ∧
      fs.tree s' = fs.tree s := by
  obtain ⟨hget, found, hfound, hfile⟩ := h
  obtain rfl := Except.ok.inj (hfound.symm.trans hwasm)
  refine ⟨fun p => ?_, hputs.unique (NameTree.putsFile_self hfile)⟩
  by_cases hsame : p = path
  · rw [hsame, get_set_self, hget]
  · rw [get_set_ne _ _ hsame]

/-- Whether a path is in place depends on what is registered and what the tree holds. -/
theorem InPlace.congr (h : fs.InPlace token registry s path)
    (hget : ∀ p, registry'.get p = registry.get p) (htree : fs.tree s' = fs.tree s) :
    fs.InPlace token registry' s' path := by
  obtain ⟨hself, wasm, hwasm, hfile⟩ := h
  exact ⟨(hget path).trans hself, wasm, hwasm, by rwa [htree]⟩

/-- A first path and the others: files can be put at all of them if one can be put at the first and
at the others behind it. -/
theorem compatible_cons_iff {content : Bytes} (hne : ∀ p ∈ path :: paths, p ≠ [])
    (htakes : t.Takes path) (hputs : t.PutsFile path content u) :
    Compatible t (path :: paths) ↔ Compatible u paths := by
  obtain ⟨hpath, hrest⟩ := forall_mem_cons.1 hne
  constructor
  · intro h
    refine ⟨fun p hp => ?_, fun p hp q hq => ?_⟩
    · have hmem := mem_cons_of_mem path hp
      refine (hputs.takes_iff htakes hpath (hrest p hp)).2 ⟨h.takes p hmem, ?_, ?_⟩
      · exact h.apart path mem_cons_self p hmem
      · exact h.apart p hmem path mem_cons_self
    · exact h.apart p (mem_cons_of_mem _ hp) q (mem_cons_of_mem _ hq)
  · intro h
    have hsplit := fun p hp => (hputs.takes_iff htakes hpath (hrest p hp)).1 (h.takes p hp)
    refine ⟨forall_mem_cons.2 ⟨htakes, fun p hp => (hsplit p hp).1⟩, ?_⟩
    refine forall_mem_cons.2 ⟨?_, fun p hp => ?_⟩
    · exact forall_mem_cons.2 ⟨fun hself => hself.2 rfl, fun p hp => (hsplit p hp).2.1⟩
    · exact forall_mem_cons.2 ⟨(hsplit p hp).2.2, h.apart p hp⟩

section

variable (hfs : fs.Lawful)
include hfs

/-- The loop succeeds exactly when files can be put at all of the paths. -/
theorem registerAll_ok_iff (hne : ∀ p ∈ paths, p ≠ []) :
    (fs.registerAll token paths registry s).1 = .ok () ↔ Compatible (fs.tree s) paths := by
  induction paths generalizing registry s with
  | nil => exact iff_of_true rfl ⟨nofun, nofun⟩
  | cons path rest ih =>
    obtain ⟨hpath, hrest⟩ := forall_mem_cons.1 hne
    rw [registerAll]
    by_cases htakes : (fs.tree s).Takes path
    · obtain ⟨wasm, s₁, hwasm, hplace, hputs⟩ := placeLauncher_of_takes hfs hpath htakes
      rw [hplace, compatible_cons_iff hne htakes hputs]
      exact ih hrest
    · obtain ⟨error, s₁, hplace, htree⟩ := placeLauncher_of_not_takes hfs htakes
      rw [hplace]
      exact iff_of_false nofun fun h => htakes (h.takes path mem_cons_self)

/-- A loop that fails has changed nothing exactly when the paths it came past were in place. -/
theorem registerAll_unchanged_iff (hne : ∀ p ∈ paths, p ≠ [])
    (hrun : fs.registerAll token paths registry s = (.error error, registry', s')) :
    ((∀ p, registry'.get p = registry.get p) ∧ fs.tree s' = fs.tree s) ↔
      fs.StopsAtOnce token registry s paths := by
  induction paths generalizing registry s with
  | nil => cases hrun
  | cons path rest ih =>
    obtain ⟨hpath, hrest⟩ := forall_mem_cons.1 hne
    rw [registerAll] at hrun
    by_cases htakes : (fs.tree s).Takes path
    · obtain ⟨wasm, s₁, hwasm, hplace, hputs⟩ := placeLauncher_of_takes hfs hpath htakes
      rw [hplace] at hrun
      have hplaced : fs.InPlace token (registry.set path ⟨token, pathText path⟩) s₁ path :=
        ⟨get_set_self _ _ _, wasm, hwasm, hputs.1⟩
      constructor
      · rintro ⟨hget, htree⟩
        -- the path is in place in the end, so it was in the beginning
        have hbefore : fs.InPlace token registry s path :=
          (hplaced.registerAll hfs hrest hrun).congr (fun p => (hget p).symm) htree.symm
        obtain ⟨hsame, htree₁⟩ := hbefore.eq hwasm hputs
        obtain ⟨done, last, after, rfl, hdone, hstop⟩ := (ih hrest hrun).1
          ⟨fun p => (hget p).trans (hsame p).symm, htree.trans htree₁.symm⟩
        refine ⟨path :: done, last, after, rfl, ?_, by rwa [← htree₁]⟩
        refine forall_mem_cons.2 ⟨hbefore, fun p hp => ?_⟩
        exact (hdone p hp).congr (fun q => (hsame q).symm) htree₁.symm
      · rintro ⟨done, last, after, hpaths, hdone, hstop⟩
        cases done with
        | nil =>
          obtain ⟨rfl, -⟩ := List.cons.inj hpaths
          exact absurd htakes hstop
        | cons first done =>
          obtain ⟨rfl, rfl⟩ := List.cons.inj hpaths
          obtain ⟨hbefore, hdone⟩ := forall_mem_cons.1 hdone
          obtain ⟨hsame, htree₁⟩ := hbefore.eq hwasm hputs
          obtain ⟨hget, htree⟩ := (ih hrest hrun).2
            ⟨done, last, after, rfl, fun p hp => (hdone p hp).congr hsame htree₁,
              by rwa [htree₁]⟩
          exact ⟨fun p => (hget p).trans (hsame p), htree.trans htree₁⟩
    · obtain ⟨error', s₁, hplace, htree⟩ := placeLauncher_of_not_takes hfs htakes
      rw [hplace] at hrun
      cases hrun
      exact iff_of_true ⟨fun _ => rfl, htree⟩ ⟨[], path, rest, rfl, nofun, htakes⟩

/-! ### Unregistering -/

variable (state : VirtualExecutableRegistry × σ)

theorem unregisterPath_isFile (path p : List Text) (data : Bytes) :
    (fs.tree (fs.unregisterPath state path).2).node p = some (.file data) ↔
      (fs.tree state.2).node p = some (.file data) ∧ p ≠ path := by
  unfold unregisterPath
  by_cases hfile : ∃ found, (fs.tree state.2).node path = some (.file found)
  · obtain ⟨found, hfound⟩ := hfile
    obtain ⟨s', hremove, hnone, hrest⟩ := hfs.removeFile_ok hfound
    simp only [hremove]
    by_cases hsame : p = path
    · subst hsame
      rw [hnone]
      exact iff_of_false nofun fun h => h.2 rfl
    · rw [hrest p hsame, and_iff_left hsame]
  · obtain ⟨error, hremove⟩ := hfs.removeFile_error fun found h => hfile ⟨found, h⟩
    simp only [hremove]
    refine (and_iff_left_of_imp fun h => ?_).symm
    rintro rfl
    exact hfile ⟨data, h⟩

theorem unregisterPath_isDirectory (path p : List Text) :
    (fs.tree (fs.unregisterPath state path).2).node p = some .directory ↔
      (fs.tree state.2).node p = some .directory := by
  unfold unregisterPath
  by_cases hfile : ∃ found, (fs.tree state.2).node path = some (.file found)
  · obtain ⟨found, hfound⟩ := hfile
    obtain ⟨s', hremove, hnone, hrest⟩ := hfs.removeFile_ok hfound
    simp only [hremove]
    by_cases hsame : p = path
    · subst hsame
      rw [hnone, hfound]
      exact iff_of_false nofun nofun
    · rw [hrest p hsame]
  · obtain ⟨error, hremove⟩ := hfs.removeFile_error fun found h => hfile ⟨found, h⟩
    simp only [hremove]

/-- The paths of a list are removed one after another. -/
theorem foldl_unregisterPath :
    (∀ p, (paths.foldl fs.unregisterPath state).1.get p =
        if p ∈ paths then none else state.1.get p) ∧
      (∀ p data, (fs.tree (paths.foldl fs.unregisterPath state).2).node p = some (.file data) ↔
        (fs.tree state.2).node p = some (.file data) ∧ p ∉ paths) ∧
      ∀ p, (fs.tree (paths.foldl fs.unregisterPath state).2).node p = some .directory ↔
        (fs.tree state.2).node p = some .directory := by
  induction paths generalizing state with
  | nil => simp
  | cons path rest ih =>
    obtain ⟨hget, hfile, hdirectory⟩ := ih (fs.unregisterPath state path)
    refine ⟨fun p => ?_, fun p data => ?_, fun p => ?_⟩
    · rw [foldl_cons, hget]
      show (if p ∈ rest then none else (state.1.delete path).get p) = _
      by_cases hsame : p = path
      · subst hsame
        simp [get_delete_self]
      · simp [get_delete_ne _ hsame, hsame]
    · rw [foldl_cons, hfile, unregisterPath_isFile hfs, mem_cons, not_or, and_assoc]
    · rw [foldl_cons, hdirectory, unregisterPath_isDirectory hfs]

theorem unregisters (token : ℕ) (registry : VirtualExecutableRegistry) (s : σ) :
    fs.Unregisters token registry s := by
  obtain ⟨hget, hfile, hdirectory⟩ := @foldl_unregisterPath _ fs
    ((registry.entries.filter fun entry => entry.2.token = token).map Prod.fst) hfs (registry, s)
  have hmem : ∀ p, p ∈ (registry.entries.filter fun entry => entry.2.token = token).map Prod.fst ↔
      ∃ target, registry.get p = some target ∧ target.token = token := by
    intro p
    simp only [mem_map, mem_filter, decide_eq_true_eq, Prod.exists, exists_and_right,
      exists_eq_right, mem_entries]
  refine ⟨fun p => ?_, fun p data => ?_, hdirectory⟩
  · rw [unregister, hget, if_congr (hmem p) rfl rfl]
    cases hp : registry.get p with
    | none => simp
    | some target => by_cases htoken : target.token = token <;> simp [Option.filter, htoken]
  · rw [unregister, hfile, hmem]
    simp only [not_exists, not_and, Option.mem_def]

/-! ### A call -/

end

theorem ne_nil_of_normalizeExecutable {text : Text} {path : List Text}
    (h : normalizeExecutable text = .ok path) : path ≠ [] := by
  unfold normalizeExecutable at h
  split at h
  · cases h
  · cases h
  next hne _ =>
    obtain rfl := Except.ok.inj h
    rintro rfl
    exact hne rfl

/-- A call either fails its checks and changes nothing, or is a run of the loop. -/
theorem register_cases (fs : Sandbox σ) (token : ℕ) (paths : List Text) (replace : Bool)
    (registry : VirtualExecutableRegistry) (s : σ) :
    (∃ error, fs.register token paths replace registry s = (.error error, registry, s) ∧
      (paths = [] ∨ ∀ normalized, paths.mapM normalizeExecutable = .ok normalized →
        ¬(replace = true ∨ ∀ path ∈ normalized, fs.findConflict registry s path = none))) ∨
    ∃ normalized, paths.mapM normalizeExecutable = .ok normalized ∧
      (replace = true ∨ ∀ path ∈ normalized, fs.findConflict registry s path = none) ∧
      fs.register token paths replace registry s = fs.registerAll token normalized registry s := by
  unfold register
  by_cases hempty : paths = []
  · rw [if_pos hempty]
    exact .inl ⟨_, rfl, .inl hempty⟩
  rw [if_neg hempty]
  cases hnormalized : paths.mapM normalizeExecutable with
  | error => exact .inl ⟨_, rfl, .inr nofun⟩
  | ok normalized =>
    cases hreplace : replace with
    | true => exact .inr ⟨normalized, rfl, .inl rfl, rfl⟩
    | false =>
      cases hconflict : normalized.findSome? (fs.findConflict registry s) with
      | none =>
        simp only [Bool.false_eq_true, if_false, hconflict]
        exact .inr ⟨normalized, rfl, .inr (List.findSome?_eq_none_iff.1 hconflict), rfl⟩
      | some =>
        simp only [Bool.false_eq_true, if_false, hconflict]
        refine .inl ⟨_, rfl, .inr ?_⟩
        rintro _ ⟨rfl⟩ (hfalse | hnone)
        · cases hfalse
        · rw [List.findSome?_eq_none_iff.2 hnone] at hconflict
          cases hconflict

/-- A call is all or nothing exactly when, once its checks have passed, all of its paths can be put
in place, or it fails at one and those before it were in place already. -/
theorem transactional_iff (hfs : fs.Lawful) (token : ℕ) (paths : List Text) (replace : Bool)
    (registry : VirtualExecutableRegistry) (s : σ) :
    fs.Transactional token paths replace registry s ↔
      fs.RegistersAll token paths replace registry s := by
  have hne : ∀ {normalized}, paths.mapM normalizeExecutable = .ok normalized →
      ∀ path ∈ normalized, path ≠ [] := by
    intro normalized hnormalized path hpath
    obtain ⟨text, -, htext⟩ := Except.exists_of_mem_mapM hnormalized hpath
    exact ne_nil_of_normalizeExecutable htext
  constructor
  · intro h normalized hnormalized hchecks
    obtain ⟨error, -, hempty | hfails⟩ | ⟨_, hnormalized', -, hregister⟩ :=
      register_cases fs token paths replace registry s
    · obtain rfl : normalized = [] := by
        rw [hempty] at hnormalized
        exact (Except.ok.inj hnormalized).symm
      exact .inl ⟨nofun, nofun⟩
    · exact absurd hchecks (hfails normalized hnormalized)
    · obtain rfl := Except.ok.inj (hnormalized.symm.trans hnormalized')
      rcases hrun : fs.registerAll token normalized registry s with ⟨error | ⟨⟩, registry', s'⟩
      · refine .inr ((registerAll_unchanged_iff hfs (hne hnormalized) hrun).1 ?_)
        exact h.of_error (hregister.trans hrun)
      · have hok := congrArg Prod.fst hrun
        exact .inl ((registerAll_ok_iff hfs (hne hnormalized)).1 hok)
  · intro h
    refine ⟨fun {error registry' s'} hrun => ?_, fun _ => unregisters hfs _ _ _⟩
    obtain ⟨error', hfails, -⟩ | ⟨normalized, hnormalized, hchecks, hregister⟩ :=
      register_cases fs token paths replace registry s
    · obtain ⟨-, rfl, rfl⟩ := Prod.mk.inj (hfails.symm.trans hrun)
      exact ⟨fun _ => rfl, rfl⟩
    · rw [hregister] at hrun
      rcases h normalized hnormalized hchecks with hcompatible | hstops
      · have hok : (fs.registerAll token normalized registry s).1 = .ok () :=
          (registerAll_ok_iff hfs (hne hnormalized)).2 hcompatible
        rw [hrun] at hok
        cases hok
      · exact (registerAll_unchanged_iff hfs (hne hnormalized) hrun).2 hstops

/-! ### A file system in memory -/

/-- The operations on the tree itself, with an empty launcher. -/
def inMemory : Sandbox (NameTree Text Bytes) where
  tree := id
  createDirAll path t :=
    if t.Open path then .ok (t.makeDirectories path) else .error "BaseNotDirectory"
  openTruncated path t :=
    if h : path ≠ [] ∧ t.node path.dropLast = some .directory ∧ t.node path ≠ some .directory then
      .ok (t.putFile path [] h.1 h.2.2)
    else .error "NotAFile"
  writeAll path data t :=
    match hfile : t.node path with
    | some (.file _) =>
        .ok (t.putFile path data (by rintro rfl; rw [t.root] at hfile; cases hfile)
          (by rw [hfile]; exact nofun))
    | _ => .error "InvalidFd"
  removeFile path t :=
    match t.node path with
    | some (.file _) => .ok (t.removeFile path)
    | _ => .error "NotAFile"
  virtualExecutableWasm _ := .ok []

theorem inMemory_lawful : inMemory.Lawful where
  createDirAll_ok hopen :=
    ⟨_, if_pos hopen, NameTree.makesDirectories_makeDirectories hopen⟩
  createDirAll_error hopen := ⟨_, if_neg hopen⟩
  openTruncated_ok hne hparent hfree :=
    ⟨_, dif_pos ⟨hne, hparent, hfree⟩, NameTree.putsFile_putFile hne hfree⟩
  openTruncated_error hdirectory := ⟨_, dif_neg fun h => h.2.2 hdirectory⟩
  writeAll_ok := by
    intro path data t before hfile
    simp only [inMemory, id_eq] at hfile ⊢
    split
    · exact ⟨_, rfl, NameTree.putsFile_putFile _ _⟩
    next hother => exact absurd hfile (hother before)
  removeFile_ok := by
    intro path t data hfile
    simp only [inMemory, id_eq] at hfile ⊢
    rw [hfile]
    refine ⟨_, rfl, ?_, fun q hq => ?_⟩
    · rw [NameTree.node_removeFile hfile, if_pos rfl]
    · rw [NameTree.node_removeFile hfile, if_neg hq]
  removeFile_error := by
    intro path t hfile
    simp only [inMemory, id_eq] at hfile ⊢
    exact ⟨_, rfl⟩
  virtualExecutableWasm_ok _ := ⟨_, rfl⟩

/-- Two paths next to one another. -/
theorem transactional_beside :
    inMemory.Transactional 1 ["/bin/a".toList, "/bin/b".toList] false OrdMap.empty
      NameTree.empty := by
  refine (transactional_iff inMemory_lawful 1 _ false OrdMap.empty NameTree.empty).2 ?_
  intro normalized hnormalized _
  obtain rfl : [["bin".toList, "a".toList], ["bin".toList, "b".toList]] = normalized :=
    Except.ok.inj hnormalized
  refine .inl ⟨?_, ?_⟩
  · unfold NameTree.Takes
    decide
  · unfold StrictlyAbove
    decide

/-- A path and one below it: the call fails at the second one, with the first one registered. -/
theorem not_transactional_below :
    ¬inMemory.Transactional 1 ["/a".toList, "/a/b".toList] false OrdMap.empty NameTree.empty := by
  intro h
  have hget := (h.of_error rfl).1 [['a']]
  exact absurd hget (by decide)

end Sandbox

end WasmHost

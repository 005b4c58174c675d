import WasmHost.Core.HostCommand
import WasmHost.Core.VirtualExecutables

/-!
# Command lookup

`PackageCatalog::resolve_command` of `lib.rs`: a command is looked up among the virtual executables
and the commands of the packages, along `PATH` if it has no slash.

The two registries are searched one after the other, each along all of `PATH`.
`CommandLookup.respectsPath_iff` says for which `PATH`s that is the same as a search entry by entry:
the entries before the first one with a virtual executable must have no package command if there is
such an entry, and none of them may lead out of the root.
-/

namespace WasmHost

open SepPath List

/-- A directory of the sandbox, as `normalize_path` gives it. -/
abbrev SandboxPath := {path : List Text // ∀ name ∈ path, NameSegment name}

/-- The text of a path. -/
def pathText (path : List Text) : Text := '/' :: List.intercalate ['/'] path

/-- A command of a package. -/
structure CommandTarget where
  package : Text
  command : Text
  deriving DecidableEq

/-- What a lookup finds. -/
inductive ResolvedCommand
  | package (target : CommandTarget)
  | virtual (target : VirtualExecutableTarget)
  deriving DecidableEq

/-- A `RunError` of the kind `CommandResolution`, or another error. -/
inductive LookupError
  | commandResolution (message : Text)
  | other (message : String)
  deriving DecidableEq

def commandNotFound (command : Text) : LookupError :=
  .commandResolution ("command not found: ".toList ++ command)

/-- The path of a command. -/
def normalizeCommandPath (command : Text) (cwd : SandboxPath) : Except String (List Text) :=
  if command.head? = some '/' then normalizePath command
  else
    match walkSegments cwd.1 (command.splitOn '/') with
    | none => .error "command paths cannot escape root"
    | some path => normalizePath (pathText path)

/-- The path of a command in a directory. -/
def commandPathFromPathEntry (directory command : Text) (cwd : SandboxPath) :
    Except String (List Text) :=
  let commandPath :=
    if directory = [] ∨ directory = ['.'] then pathPush (pathText cwd.1) command
    else pathPush directory command
  if commandPath.head? = some '/' then normalizePath commandPath
  else normalizeCommandPath commandPath cwd

/-- What `PATH` names. -/
def pathEntries (pathEnv : Option Text) : List Text := (pathEnv.getD []).splitOn ':'

/-- The loop along `PATH` of both registries. -/
def searchPath {α : Type} (lookup : List Text → Option α) (command : Text) (cwd : SandboxPath) :
    List Text → Except LookupError (Option α)
  | [] => .ok none
  | directory :: directories =>
    match commandPathFromPathEntry directory command cwd with
    | .error message => .error (.other message)
    | .ok candidate =>
      match lookup candidate with
      | some target => .ok (some target)
      | none => searchPath lookup command cwd directories

/-- The checks of a command that both registries make first. -/
def checkCommand (command : Text) : Except LookupError Unit :=
  if '\x00' ∈ command then .error (.commandResolution "command cannot contain NUL bytes".toList)
  else if command = [] then .error (.commandResolution "command cannot be empty".toList)
  else .ok ()

/-- `VirtualExecutableRegistry::resolve_command`. -/
def VirtualExecutableRegistry.resolveCommand (registry : VirtualExecutableRegistry)
    (command : Text) (cwd : SandboxPath) (pathEnv : Option Text) :
    Except LookupError (Option VirtualExecutableTarget) := do
  checkCommand command
  if '/' ∈ command then
    match normalizeCommandPath command cwd with
    | .error message => .error (.other message)
    | .ok path => return registry.get path
  else searchPath registry.get command cwd (pathEntries pathEnv)

/-- The commands of the packages and the virtual executables of a sandbox. -/
structure CommandLookup where
  commandPaths : OrdMap (List Text) CommandTarget
  virtualExecutables : VirtualExecutableRegistry

namespace CommandLookup

variable (lookup : CommandLookup)

/-- The command that a search finds. -/
def resolvePathCommand (command : Text) (cwd : SandboxPath) (pathEnv : Option Text) :
    Except LookupError (Option CommandTarget) :=
  searchPath lookup.commandPaths.get command cwd (pathEntries pathEnv)

/-- What a name resolves to. -/
def resolveCommand (command : Text) (cwd : SandboxPath) (pathEnv : Option Text) :
    Except LookupError ResolvedCommand := do
  checkCommand command
  match ← lookup.virtualExecutables.resolveCommand command cwd pathEnv with
  | some target => return .virtual target
  | none =>
    if '/' ∈ command then
      match normalizeCommandPath command cwd with
      | .error message => .error (.other message)
      | .ok path =>
        match lookup.commandPaths.get path with
        | some target => return .package target
        | none => .error (commandNotFound command)
    else
      match ← lookup.resolvePathCommand command cwd pathEnv with
      | some target => return .package target
      | none => .error (commandNotFound command)

/-! ### What a lookup is for -/

/-- What is at a path, a virtual executable first. -/
def at? (path : List Text) : Option ResolvedCommand :=
  ((lookup.virtualExecutables.get path).map .virtual).or
    ((lookup.commandPaths.get path).map .package)

/-- What an entry of `PATH` has under a name. -/
def resolveEntry (command : Text) (cwd : SandboxPath) (directory : Text) : Option ResolvedCommand :=
  match commandPathFromPathEntry directory command cwd with
  | .error _ => none
  | .ok path => lookup.at? path

/-- A text that names a command. -/
structure CommandName where
  text : Text
  nonEmpty : text ≠ []
  noNul : '\x00' ∉ text
  noSlash : '/' ∉ text

/-- A name is looked up entry by entry. -/
def RespectsPath (name : CommandName) (cwd : SandboxPath) (pathEnv : Option Text) : Prop :=
  lookup.resolveCommand name.text cwd pathEnv =
    match (pathEntries pathEnv).findSome? (lookup.resolveEntry name.text cwd) with
    | some target => .ok target
    | none => .error (commandNotFound name.text)

/-- A command with a slash is looked up like its path. -/
def RespectsSlash (cwd : SandboxPath) (pathEnv : Option Text) : Prop :=
  ∀ command path, '/' ∈ command → '\x00' ∉ command →
    normalizeCommandPath command cwd = .ok path →
    (∀ target, lookup.resolveCommand command cwd pathEnv = .ok target ↔
      lookup.resolveCommand (pathText path) cwd pathEnv = .ok target) ∧
    (lookup.resolveCommand command cwd pathEnv = .error (commandNotFound command) ↔
      lookup.resolveCommand (pathText path) cwd pathEnv = .error (commandNotFound (pathText path)))

/-- The entry has a virtual executable of the name. -/
def HasVirtual (command : Text) (cwd : SandboxPath) (directory : Text) : Prop :=
  ∃ path, commandPathFromPathEntry directory command cwd = .ok path ∧
    lookup.virtualExecutables.has path = true

/-- The entry has a package command of the name. -/
def HasPackage (command : Text) (cwd : SandboxPath) (directory : Text) : Prop :=
  ∃ path, commandPathFromPathEntry directory command cwd = .ok path ∧
    lookup.commandPaths.has path = true

/-- One lookup decides it. -/
instance (command : Text) (cwd : SandboxPath) (directory : Text) :
    Decidable (lookup.HasVirtual command cwd directory) :=
  match h : commandPathFromPathEntry directory command cwd with
  | .error _ => isFalse fun ⟨_, hpath, _⟩ => absurd (h.symm.trans hpath) nofun
  | .ok path => decidable_of_iff (lookup.virtualExecutables.has path = true)
      ⟨fun hhas => ⟨path, h, hhas⟩, fun ⟨_, hpath, hhas⟩ =>
        Except.ok.inj (h.symm.trans hpath) ▸ hhas⟩

/-- The entries before the first one with a virtual executable, which are all if there is none. -/
def entriesBeforeVirtual (command : Text) (cwd : SandboxPath) (pathEnv : Option Text) : List Text :=
  (pathEntries pathEnv).takeWhile fun directory => ¬lookup.HasVirtual command cwd directory

/-- The entries before the first virtual executable stay within the root, and if there is a virtual
executable they have no package command. -/
def VirtualFirst (command : Text) (cwd : SandboxPath) (pathEnv : Option Text) : Prop :=
  (∀ directory ∈ lookup.entriesBeforeVirtual command cwd pathEnv,
    ∃ path, commandPathFromPathEntry directory command cwd = .ok path) ∧
  ((∃ directory ∈ pathEntries pathEnv, lookup.HasVirtual command cwd directory) →
    ∀ directory ∈ lookup.entriesBeforeVirtual command cwd pathEnv,
      ¬lookup.HasPackage command cwd directory)

end CommandLookup

/-! ### The loop -/

/-- What a registry has at the path of an entry. -/
def found {α : Type} (get : List Text → Option α) (command : Text) (cwd : SandboxPath)
    (directory : Text) : Option α :=
  match commandPathFromPathEntry directory command cwd with
  | .error _ => none
  | .ok path => get path

section

variable {α : Type} (get : List Text → Option α) (command : Text) (cwd : SandboxPath)

/-- Up to the first entry that has something, all of them have a path. -/
theorem searchPath_of_paths (directories : List Text)
    (h : ∀ directory ∈ directories.takeWhile fun d => (found get command cwd d).isNone,
      ∃ path, commandPathFromPathEntry directory command cwd = .ok path) :
    searchPath get command cwd directories =
      .ok (directories.findSome? (found get command cwd)) := by
  induction directories with
  | nil => rfl
  | cons directory directories ih =>
    rw [takeWhile_cons] at h
    cases hcandidate : commandPathFromPathEntry directory command cwd with
    | error =>
      have hnone : (found get command cwd directory).isNone = true := by
        simp only [found, hcandidate, Option.isNone_none]
      rw [if_pos hnone] at h
      obtain ⟨path, hpath⟩ := h directory mem_cons_self
      exact absurd (hcandidate.symm.trans hpath) nofun
    | ok candidate =>
      have hfound : found get command cwd directory = get candidate := by
        simp only [found, hcandidate]
      rw [List.findSome?_cons, hfound, searchPath, hcandidate]
      cases hget : get candidate with
      | some => simp only [hget]
      | none =>
        rw [hfound, hget, Option.isNone_none, if_pos rfl] at h
        simp only [hget]
        exact ih fun d hd => h d (mem_cons_of_mem _ hd)

/-- An entry without a path ends the search. -/
theorem searchPath_of_no_path (directories : List Text)
    (h : ∃ directory ∈ directories.takeWhile fun d => (found get command cwd d).isNone,
      ∀ path, commandPathFromPathEntry directory command cwd ≠ .ok path) :
    ∃ message, searchPath get command cwd directories = .error (.other message) := by
  induction directories with
  | nil =>
    obtain ⟨_, hmem, -⟩ := h
    exact absurd hmem not_mem_nil
  | cons directory directories ih =>
    rw [searchPath]
    cases hcandidate : commandPathFromPathEntry directory command cwd with
    | error message => exact ⟨message, rfl⟩
    | ok candidate =>
      obtain ⟨bad, hbad, hno⟩ := h
      have hfound : found get command cwd directory = get candidate := by
        simp only [found, hcandidate]
      rw [takeWhile_cons, hfound] at hbad
      cases hget : get candidate with
      | some =>
        rw [hget] at hbad
        exact absurd hbad not_mem_nil
      | none =>
        rw [hget, Option.isNone_none, if_pos rfl, mem_cons] at hbad
        rcases hbad with rfl | hbad
        · exact absurd hcandidate (hno candidate)
        · simp only [hget]
          exact ih ⟨bad, hbad, hno⟩

end

section

variable {α β γ δ : Type} {f : α → Option β} {g : α → Option γ} {left : β → δ} {right : γ → δ}
  {items : List α}

/-- A search for two kinds of things finds the second where there is none of the first. -/
theorem findSome?_or_of_eq_none (h : items.findSome? f = none) :
    items.findSome? (fun item => ((f item).map left).or ((g item).map right)) =
      (items.findSome? g).map right := by
  induction items with
  | nil => rfl
  | cons item items ih =>
    rw [List.findSome?_cons] at h
    cases hf : f item with
    | some =>
      rw [hf] at h
      exact absurd h nofun
    | none =>
      rw [hf] at h
      rw [List.findSome?_cons, List.findSome?_cons, hf, Option.map_none, Option.none_or]
      cases hg : g item with
      | some => rfl
      | none => exact ih h

/-- It finds the same thing of the first kind as a search for that alone exactly when nothing of the
second kind comes before. -/
theorem findSome?_or_eq_some_iff (hne : ∀ b c, right c ≠ left b) {b : β}
    (h : items.findSome? f = some b) :
    items.findSome? (fun item => ((f item).map left).or ((g item).map right)) = some (left b) ↔
      ∀ item ∈ items.takeWhile fun item => (f item).isNone, g item = none := by
  induction items with
  | nil => exact absurd h nofun
  | cons item items ih =>
    rw [List.findSome?_cons] at h
    rw [List.findSome?_cons, takeWhile_cons]
    cases hf : f item with
    | some =>
      rw [hf] at h
      obtain rfl := Option.some.inj h
      exact iff_of_true rfl nofun
    | none =>
      rw [hf] at h
      simp only [Option.map_none, Option.none_or, Option.isNone_none, if_true, forall_mem_cons]
      cases hg : g item with
      | some c =>
        refine iff_of_false (fun heq => hne b c (Option.some.inj heq)) fun hall => ?_
        exact absurd hall.1 nofun
      | none => exact (ih h).trans (and_iff_right rfl).symm

end

namespace CommandLookup

variable {lookup : CommandLookup} {cwd : SandboxPath} {pathEnv : Option Text} {command : Text}

variable (name : CommandName) {path : List Text}

theorem checkCommand_name : checkCommand name.text = .ok () := by
  rw [checkCommand, if_neg name.noNul, if_neg name.nonEmpty]

theorem isNone_found_iff (command directory : Text) :
    (found lookup.virtualExecutables.get command cwd directory).isNone = true ↔
      ¬lookup.HasVirtual command cwd directory := by
  rw [found, HasVirtual]
  cases commandPathFromPathEntry directory command cwd with
  | error => exact iff_of_true rfl fun ⟨path, hpath, _⟩ => absurd hpath nofun
  | ok => simp [OrdMap.has]

theorem found_eq_none_iff (command directory : Text) :
    found lookup.commandPaths.get command cwd directory = none ↔
      ¬lookup.HasPackage command cwd directory := by
  rw [found, HasPackage]
  cases commandPathFromPathEntry directory command cwd with
  | error => exact iff_of_true rfl fun ⟨path, hpath, _⟩ => absurd hpath nofun
  | ok => simp [OrdMap.has]

theorem resolveEntry_eq (command directory : Text) :
    lookup.resolveEntry command cwd directory =
      ((found lookup.virtualExecutables.get command cwd directory).map .virtual).or
        ((found lookup.commandPaths.get command cwd directory).map .package) := by
  rw [resolveEntry, found, found]
  cases commandPathFromPathEntry directory command cwd with
  | error | ok => rfl

theorem entriesBeforeVirtual_eq (command : Text) :
    lookup.entriesBeforeVirtual command cwd pathEnv = (pathEntries pathEnv).takeWhile
      fun directory => (found lookup.virtualExecutables.get command cwd directory).isNone := by
  rw [entriesBeforeVirtual]
  congr 1
  funext directory
  rw [Bool.eq_iff_iff, isNone_found_iff, decide_eq_true_eq]

/-- A name is looked up along `PATH`, first among the virtual executables. -/
theorem resolveCommand_name :
    lookup.resolveCommand name.text cwd pathEnv =
      (searchPath lookup.virtualExecutables.get name.text cwd (pathEntries pathEnv)).bind
        fun virtual =>
          match virtual with
          | some target => .ok (.virtual target)
          | none => (lookup.resolvePathCommand name.text cwd pathEnv).bind fun package =>
              match package with
              | some target => .ok (.package target)
              | none => .error (commandNotFound name.text) := by
  simp only [resolveCommand, VirtualExecutableRegistry.resolveCommand, checkCommand_name,
    if_neg name.noSlash]
  rfl

theorem respectsPath_iff_virtualFirst :
    lookup.RespectsPath name cwd pathEnv ↔ lookup.VirtualFirst name.text cwd pathEnv := by
  have hentry : lookup.resolveEntry name.text cwd = fun directory =>
      ((found lookup.virtualExecutables.get name.text cwd directory).map .virtual).or
        ((found lookup.commandPaths.get name.text cwd directory).map .package) :=
    funext fun directory => resolveEntry_eq _ _
  rw [RespectsPath, VirtualFirst, resolveCommand_name, entriesBeforeVirtual_eq, hentry]
  by_cases hpaths : ∀ directory ∈ (pathEntries pathEnv).takeWhile
      fun d => (found lookup.virtualExecutables.get name.text cwd d).isNone,
      ∃ path, commandPathFromPathEntry directory name.text cwd = .ok path
  · rw [and_iff_right hpaths, searchPath_of_paths _ _ _ _ hpaths]
    cases hvirtual : (pathEntries pathEnv).findSome?
        (found lookup.virtualExecutables.get name.text cwd) with
    | some target =>
      have hhas : ∃ directory ∈ pathEntries pathEnv,
          lookup.HasVirtual name.text cwd directory := by
        obtain ⟨directory, hmem, hfound⟩ := exists_of_findSome?_eq_some hvirtual
        refine ⟨directory, hmem, not_not.1 fun hno => ?_⟩
        have hnone := (isNone_found_iff _ _).2 hno
        rw [hfound] at hnone
        cases hnone
      rw [forall_prop_of_true hhas]
      simp only [← found_eq_none_iff]
      have hne : ∀ (b : VirtualExecutableTarget) c,
          ResolvedCommand.package c ≠ .virtual b := fun _ _ h => by cases h
      rw [← findSome?_or_eq_some_iff hne hvirtual]
      constructor
      · intro heq
        split at heq
        next target' htarget =>
          obtain rfl := Except.ok.inj heq
          exact htarget
        · cases heq
      · intro htarget
        rw [htarget]
        rfl
    | none =>
      have hnone := List.findSome?_eq_none_iff.1 hvirtual
      have hno : ¬∃ directory ∈ pathEntries pathEnv,
          lookup.HasVirtual name.text cwd directory := by
        rintro ⟨directory, hmem, hhas⟩
        refine (isNone_found_iff _ _).1 ?_ hhas
        rw [hnone directory hmem]
        rfl
      -- no entry ends the first search, so that all of them have a path
      have hall : ∀ directory ∈ pathEntries pathEnv,
          ∃ path, commandPathFromPathEntry directory name.text cwd = .ok path := by
        intro directory hmem
        refine hpaths directory ?_
        rw [takeWhile_eq_self_iff.2]
        · exact hmem
        · exact fun d hd => by rw [hnone d hd]; rfl
      refine iff_of_true ?_ fun hhas => absurd hhas hno
      rw [findSome?_or_of_eq_none hvirtual, resolvePathCommand, searchPath_of_paths]
      · cases (pathEntries pathEnv).findSome? (found lookup.commandPaths.get name.text cwd) with
        | some | none => rfl
      · exact fun directory hmem => hall directory (takeWhile_subset _ hmem)
  · -- the search for a virtual executable fails at an entry that leads out of the root
    refine iff_of_false ?_ fun hfirst => hpaths hfirst.1
    push Not at hpaths
    obtain ⟨message, hsearch⟩ := searchPath_of_no_path _ _ _ _ hpaths
    rw [hsearch]
    intro heq
    split at heq
    · cases heq
    · cases Except.error.inj heq

/-! ### Commands with a slash -/

theorem walkSegments_names {start : List Text} (h : ∀ name ∈ path, NameSegment name) :
    walkSegments start path = some (start ++ path) := by
  induction path generalizing start with
  | nil => rw [walkSegments, append_nil]
  | cons name path ih =>
    obtain ⟨⟨hne, hdot, hdots, -⟩, -⟩ := h name mem_cons_self
    rw [walkSegments, if_neg (not_or.2 ⟨hne, hdot⟩), if_neg hdots,
      ih fun t ht => h t (mem_cons_of_mem _ ht), append_assoc]
    rfl

theorem nul_not_mem_pathText (h : ∀ name ∈ path, NameSegment name) : '\x00' ∉ pathText path := by
  rw [pathText, mem_cons, not_or]
  refine ⟨by decide, fun hmem => ?_⟩
  by_cases hempty : path = []
  · rw [hempty] at hmem
    exact absurd hmem not_mem_nil
  · obtain ⟨name, hname, hnul⟩ :=
      (mem_iff_exists_mem_splitOn (show '\x00' ≠ '/' by decide)).1 hmem
    rw [splitOn_join hempty fun t ht => (h t ht).2] at hname
    exact (h name hname).1.2.2.2 hnul

/-- A path is its own normal form. -/
theorem normalizePath_pathText (h : ∀ name ∈ path, NameSegment name) :
    normalizePath (pathText path) = .ok path := by
  have hsplit : walkSegments [] ((pathText path).splitOn '/') = some path := by
    rw [pathText, ← nil_append ('/' :: _), splitOn_append_sep, splitOn_nil,
      singleton_append, walkSegments, if_pos (.inl rfl)]
    by_cases hempty : path = []
    · rw [hempty]
      rfl
    · rw [splitOn_join hempty fun t ht => (h t ht).2, walkSegments_names h,
        nil_append]
  rw [normalizePath, if_neg (nul_not_mem_pathText h), if_neg (fun hhead => hhead rfl), hsplit]

theorem nameSegment_normalizePath {text : Text} (h : normalizePath text = .ok path) :
    ∀ name ∈ path, NameSegment name := by
  rw [normalizePath] at h
  split_ifs at h with hnul habsolute
  split at h
  · exact absurd h nofun
  next components hwalk =>
    obtain rfl := Except.ok.inj h
    refine nameSegment_walkSegments hwalk nofun fun s hs => ⟨fun hmem => hnul ?_, ?_⟩
    · exact (mem_iff_exists_mem_splitOn (by decide)).2 ⟨s, hs, hmem⟩
    · exact not_mem_of_mem_splitOn hs

theorem nameSegment_normalizeCommandPath (h : normalizeCommandPath command cwd = .ok path) :
    ∀ name ∈ path, NameSegment name := by
  rw [normalizeCommandPath] at h
  split_ifs at h with habsolute
  · exact nameSegment_normalizePath h
  · split at h
    · exact absurd h nofun
    · exact nameSegment_normalizePath h

/-- A command with a slash is looked up by its path alone. -/
theorem resolveCommand_slash (hslash : '/' ∈ command) (hnul : '\x00' ∉ command)
    (hpath : normalizeCommandPath command cwd = .ok path) :
    lookup.resolveCommand command cwd pathEnv =
      match lookup.at? path with
      | some target => .ok target
      | none => .error (commandNotFound command) := by
  have hcheck : checkCommand command = .ok () := by
    rw [checkCommand, if_neg hnul, if_neg (ne_nil_of_mem hslash)]
  have hvirtual : lookup.virtualExecutables.resolveCommand command cwd pathEnv =
      .ok (lookup.virtualExecutables.get path) := by
    simp only [VirtualExecutableRegistry.resolveCommand, hcheck, if_pos hslash, hpath]
    rfl
  simp only [resolveCommand, hcheck, hvirtual, if_pos hslash, hpath, at?]
  cases lookup.virtualExecutables.get path with
  | some => rfl
  | none =>
    cases lookup.commandPaths.get path with
    | some | none => rfl

theorem respectsSlash : lookup.RespectsSlash cwd pathEnv := by
  intro command path hslash hnul hpath
  have hnames := nameSegment_normalizeCommandPath hpath
  have hnormal : normalizeCommandPath (pathText path) cwd = .ok path :=
    (if_pos rfl).trans (normalizePath_pathText hnames)
  have hpathSlash : '/' ∈ pathText path := mem_cons_self
  rw [resolveCommand_slash hslash hnul hpath,
    resolveCommand_slash hpathSlash (nul_not_mem_pathText hnames) hnormal]
  cases lookup.at? path with
  | some => exact ⟨fun _ => Iff.rfl, iff_of_false nofun nofun⟩
  | none => exact ⟨fun _ => iff_of_false nofun nofun, iff_of_true rfl rfl⟩

/-- A name is looked up entry by entry exactly when no entry before the first virtual executable is
in the way, and a command with a slash is always looked up like its path. -/
theorem respectsPath_iff (lookup : CommandLookup) (name : CommandName) (cwd : SandboxPath)
    (pathEnv : Option Text) :
    (lookup.RespectsPath name cwd pathEnv ↔ lookup.VirtualFirst name.text cwd pathEnv) ∧
      lookup.RespectsSlash cwd pathEnv :=
  ⟨respectsPath_iff_virtualFirst name, respectsSlash⟩

/-- A package command in the first entry, and a virtual executable in the second. -/
def shadowedLs : CommandLookup where
  commandPaths := .ofList [(["bin".toList, "ls".toList], ⟨"coreutils".toList, "ls".toList⟩)]
  virtualExecutables := .ofList
    [(["tools".toList, "ls".toList], ⟨1, "/tools/ls".toList⟩)]

def lsName : CommandName := ⟨"ls".toList, by decide, by decide, by decide⟩

/-- The virtual executable of a later entry comes first, and an entry that leads out of the root
hides a command of an earlier one. -/
theorem not_respectsPath_shadowed :
    ¬shadowedLs.RespectsPath lsName ⟨[], nofun⟩ (some "/bin:/tools".toList) ∧
    ¬shadowedLs.RespectsPath lsName ⟨[], nofun⟩ (some "/bin:/..".toList) := by
  unfold RespectsPath
  decide +kernel

end CommandLookup

end WasmHost

import WasmHost.Wasi.Boot
import WasmHost.Wasi.ChildSnapshot
import WasmHost.Wasi.OpenGrant

/-!
# Attenuation of rights

What opening, duplicating, renumbering, forking and `fd_fdstat_set_rights` do to the rights that
`fd_fdstat_get` reports. Duplicates and forks never gain rights. `path_open` asks nothing of the
rights of the directory it opens through, and `fd_fdstat_set_rights` has no effect on a number
outside the descriptor table although it reports success; `System.attenuates_iff` says that these
are the only two ways in which rights are not attenuated.
-/

namespace WasmHost

/-- Both kinds of rights are contained. -/
def ContainedIn (granted source : Rights × Rights) : Prop :=
  allowsRights granted.1 source.1 = true ∧ allowsRights granted.2 source.2 = true

theorem ContainedIn.refl (granted : Rights × Rights) : ContainedIn granted granted :=
  ⟨allowsRights_self _, allowsRights_self _⟩

/-- A failure stays one whatever the call stores. -/
theorem Memory.finishU32_ne_ok (mem : Memory) (ptr : Int) (value : ℕ) (failure : Failure) :
    (mem.finishU32 ptr value (.error failure)).2 ≠ .ok () := by
  unfold finishU32
  split <;> simp

namespace World

variable (w : World) {source : Int} {vacated : Option Int}

/-- The base rights and the inheriting rights that `fd_fdstat_get` reports. -/
def reportedRights (fd : Int) : Option (Rights × Rights) :=
  (w.fdStat fd).map fun stat => (stat.rights, stat.inheriting)

/-- The rights of the numbers that denote something without being in the table. -/
def builtinRights (fd : Int) : Option (Rights × Rights) :=
  (w.builtinStat fd).map fun stat => (stat.rights, stat.inheriting)

variable (file : OpenFile) (fd : Int) {w' : World}

theorem granted_openFileStat :
    ((w.openFileStat file).rights, (w.openFileStat file).inheriting) = file.granted := by
  obtain ⟨kind, mount, path, rights, fdflags⟩ := file
  cases kind with
  | pipe direction pipe => cases direction <;> rfl
  | _ => rfl

theorem reportedRights_eq :
    w.reportedRights fd =
      match w.openFile fd with
      | some file => some file.granted
      | none => w.builtinRights fd := by
  unfold reportedRights fdStat
  cases w.openFile fd with
  | none => rfl
  | some file => exact congrArg some (w.granted_openFileStat file)

theorem reportedRights_of_openFile {fd : Int} {file : OpenFile} (h : w.openFile fd = some file) :
    w.reportedRights fd = some file.granted := by
  rw [reportedRights_eq, h]

/-- What never changes: the package root, its number, and whether the workspace is writable. -/
structure Fixed (w w' : World) : Prop where
  packageRoot : w'.host.packageRoot = w.host.packageRoot
  writable : w'.host.workspace.writable = w.host.workspace.writable
  packageRootFd : w'.runtime.packageRootFd = w.runtime.packageRootFd

theorem Fixed.refl (w : World) : Fixed w w := ⟨rfl, rfl, rfl⟩

theorem Fixed.trans {w w'' : World} (h : Fixed w w') (h' : Fixed w' w'') : Fixed w w'' :=
  ⟨h'.packageRoot.trans h.packageRoot, h'.writable.trans h.writable,
    h'.packageRootFd.trans h.packageRootFd⟩

theorem Plain.fixed {w : World} (h : Plain w w') : Fixed w w' := by
  cases h with
  | quiet h => exact ⟨h.packageRoot, h.writable, h.packageRootFd⟩
  | pipeBytes | content | adopt => exact ⟨rfl, rfl, rfl⟩
  | @truncate mount key record hget => cases mount <;> exact ⟨rfl, rfl, rfl⟩
  | opened | closed => exact ⟨rfl, rfl, rfl⟩
  | @moved fd target file hfile htarget hne =>
    unfold moveDescriptor closeReplaced
    split <;> exact ⟨rfl, rfl, rfl⟩
  | duplicated | preopened =>
    unfold placeDuplicate closeReplaced
    split <;> exact ⟨rfl, rfl, rfl⟩
  | piped | rights => exact ⟨rfl, rfl, rfl⟩

theorem Plains.fixed {w : World} (h : Plains w w') : Fixed w w' := by
  induction h with
  | refl => exact Fixed.refl w
  | tail _ hstep ih => exact ih.trans hstep.fixed

theorem fixed_call (c : Call) : Fixed w (w.call c) := by
  rcases w.call_effects c with h | ⟨mount, e, he, h⟩
  · exact h.fixed
  · have hframe := w.framed_perform mount e
    exact Fixed.trans ⟨hframe.packageRoot, hframe.writable, hframe.packageRootFd⟩ h.fixed

theorem fixed_childSnapshot (snapshot : SnapshotTree) :
    Fixed w (w.importWasiWorkspaceSnapshot snapshot).rebindOpenWorkspaceFiles := by
  refine childSnapshot_induction (P := Fixed w)
    (fun w' h => ⟨h.packageRoot, h.writable, congrArg Runtime.packageRootFd h.runtime⟩)
    (fun w' path h => h.trans ⟨rfl, rfl, rfl⟩) fun w' fd file old record writable offset _ _ h => ?_
  exact h.trans ⟨rfl, rfl, rfl⟩

theorem builtinRights_of_fixed {w : World} (h : Fixed w w') (fd : Int) :
    w'.builtinRights fd = w.builtinRights fd := by
  have hwritable : w'.writable = w.writable := h.writable
  unfold builtinRights builtinStat
  rw [hwritable, h.packageRootFd]

theorem reportedRights_of_openFiles {w : World} (h : Fixed w w')
    (hopen : w'.runtime.openFiles = w.runtime.openFiles) (fd : Int) :
    w'.reportedRights fd = w.reportedRights fd := by
  rw [reportedRights_eq, reportedRights_eq, builtinRights_of_fixed h, openFile, hopen]
  rfl

/-- One number of the table is set. -/
theorem reportedRights_of_set {w : World} (h : Fixed w w') {target : Int} {file : OpenFile}
    (hopen : w'.runtime.openFiles = w.runtime.openFiles.set target file) (fd : Int) :
    w'.reportedRights fd =
      if fd = target then some file.granted else w.reportedRights fd := by
  have hget : w'.openFile fd = if fd = target then some file else w.openFile fd := by
    rw [openFile, hopen]
    exact OrdMap.get_set _ _ _ _
  rw [reportedRights_eq, hget, reportedRights_eq]
  by_cases hfd : fd = target
  · rw [if_pos hfd, if_pos hfd]
  · rw [if_neg hfd, if_neg hfd, builtinRights_of_fixed h]

/-! ### Opening -/

/-- The new descriptor holds and passes on no right that its directory does not pass on, and the
directory holds the rights that the call needs. -/
def OpenAttenuates (fd : Int) : OpenResult → Prop
  | (_, .error _) => True
  | (w', .ok openedFd) =>
      ∃ source opened, w.reportedRights fd = some source ∧
        w'.reportedRights openedFd = some opened ∧
        ContainedIn opened (source.2, source.2) ∧
        hasRight source.1 rightPathOpen = true ∧
        (CreatesFile w w' → hasRight source.1 rightPathCreateFile = true)

/-- What is decided heeds the rights of the directory. -/
def GrantHeeds (fd : Int) : Except Errno Grant → Prop
  | .error _ => True
  | .ok g =>
      ∃ source, w.reportedRights fd = some source ∧
        ContainedIn (g.rights, g.inheriting) (source.2, source.2) ∧
        hasRight source.1 rightPathOpen = true ∧
        (g.creates = true → hasRight source.1 rightPathCreateFile = true)

theorem openAttenuates_iff {result : OpenResult} {d : Except Errno Grant} (h : Decides w result d) :
    w.OpenAttenuates fd result ↔ w.GrantHeeds fd d := by
  cases d with
  | error errno =>
    have hresult : result = (w, .error errno) := h
    rw [hresult]
    exact Iff.rfl
  | ok =>
    obtain ⟨w', openedFd, hresult, ⟨file, hfile, hrights⟩, hcreates⟩ := h
    rw [hresult]
    simp only [OpenAttenuates, GrantHeeds, w'.reportedRights_of_openFile hfile, hcreates,
      Option.some.injEq]
    constructor
    · rintro ⟨source, opened, hsource, rfl, hrest⟩
      rw [hrights] at hrest
      exact ⟨source, hsource, hrest⟩
    · rintro ⟨source, hsource, hrest⟩
      refine ⟨source, _, hsource, rfl, ?_⟩
      rw [hrights]
      exact hrest

/-- The decision of `path_open2`. -/
def openGrant2 (fd : Int) (dirflags : Flags) (path : Text) (oflags : Flags)
    (rightsBase rightsInheriting : Rights) (fdflags fdFlagsExt : Flags) : Except Errno Grant :=
  if hasFlag fdFlagsExt (~~~fdflagsExtMask) = true then .error .inval
  else w.openGrant fd dirflags path oflags rightsBase rightsInheriting fdflags

theorem pathOpen2_decides (dirflags : Flags) (path : Text) (oflags : Flags)
    (rightsBase rightsInheriting : Rights) (fdflags fdFlagsExt : Flags) :
    Decides w
      (w.pathOpen2 fd dirflags path oflags rightsBase rightsInheriting fdflags fdFlagsExt)
      (w.openGrant2 fd dirflags path oflags rightsBase rightsInheriting fdflags fdFlagsExt) := by
  unfold pathOpen2 openGrant2
  refine decides_ite (fun _ => w.decides_error _) fun _ => ?_
  have hopen := w.pathOpen_decides path oflags rightsBase rightsInheriting fdflags fd dirflags
  generalize w.openGrant fd dirflags path oflags rightsBase rightsInheriting fdflags = d at hopen
  cases d with
  | error errno =>
    have hresult : w.pathOpen fd dirflags path oflags rightsBase rightsInheriting fdflags =
        (w, .error errno) := hopen
    rw [hresult]
    exact w.decides_error errno
  | ok =>
    obtain ⟨w', openedFd, hresult, ⟨file, hfile, hrights⟩, hcreates⟩ := hopen
    rw [hresult]
    refine ⟨_, openedFd, rfl, ⟨file, ?_, hrights⟩, ?_⟩
    · split
      · exact hfile
      · exact hfile
    · rw [hcreates]
      unfold CreatesFile
      split
      · exact Iff.rfl
      -- the extended flags are no part of a mount
      have hmount : ∀ flags mount, (w'.setFdFlagsExt flags).mountOf mount = w'.mountOf mount :=
        fun flags mount => by cases mount <;> rfl
      simp only [hmount]

/-! ### Duplicating -/

/-- The target of a copy holds no more than the source did, unless the call failed and left the
target alone. Of the other numbers only one that has been vacated changes. -/
structure CopyAttenuates (w' : World) (source target : Int) (vacated : Option Int)
    (outcome : Except Failure Unit) : Prop where
  copied :
    (outcome ≠ .ok () ∧ w'.reportedRights target = w.reportedRights target) ∨
      ∀ granted, w'.reportedRights target = some granted →
        ∃ held, w.reportedRights source = some held ∧ ContainedIn granted held
  others : ∀ fd, fd ≠ target → some fd ≠ vacated → w'.reportedRights fd = w.reportedRights fd

variable {target : Int} {outcome : Except Failure Unit}

/-- A failed copy that changes nothing. -/
theorem copyAttenuates_of_failed (h : outcome ≠ .ok ()) :
    CopyAttenuates w w source target vacated outcome :=
  ⟨.inl ⟨h, rfl⟩, fun _ _ _ => rfl⟩

/-- A number is copied to itself. -/
theorem copyAttenuates_self : CopyAttenuates w w source source vacated outcome :=
  ⟨.inr fun granted h => ⟨granted, h, ContainedIn.refl granted⟩, fun _ _ _ => rfl⟩

/-- Only one number changes, to a copy of the source. -/
theorem copyAttenuates_of_put {w : World} {file : OpenFile}
    (hsource : w.reportedRights source = some file.granted)
    (htarget : w'.reportedRights target = some file.granted)
    (hothers : ∀ fd, fd ≠ target → some fd ≠ vacated →
      w'.reportedRights fd = w.reportedRights fd) :
    CopyAttenuates w w' source target vacated outcome := by
  refine ⟨.inr fun granted hgranted => ⟨_, hsource, ?_⟩, hothers⟩
  rw [htarget] at hgranted
  obtain rfl := Option.some.inj hgranted
  exact ContainedIn.refl _

/-- A duplicate has the rights that are reported for what it is a duplicate of. -/
theorem reportedRights_of_duplicate {fd : Int} {file : OpenFile}
    (h : w.duplicateOpenFileForFd fd = (w', some file)) :
    w.reportedRights fd = some file.granted := by
  unfold duplicateOpenFileForFd at h
  split at h
  next f hf =>
    rw [reportedRights_eq, hf]
    exact congrArg (fun f : OpenFile => some f.granted) (Option.some.inj (Prod.mk.inj h).2)
  next hnone =>
    rw [reportedRights_eq, hnone, builtinRights]
    rw [w.fdStat_of_openFile_none hnone] at h
    split at h
    · cases h
    next stat hstat =>
      rw [hstat]
      have hstdio : ∀ rights, stdioRights fd = some rights →
          stat = ⟨.characterDevice, 0, rights, 0⟩ := by
        intro rights hrights
        rw [builtinStat, hrights] at hstat
        exact (Option.some.inj hstat).symm
      split at h
      next rights hrights =>
        obtain rfl := hstdio rights hrights
        rw [← Option.some.inj (Prod.mk.inj h).2]
        rfl
      · repeat' split at h
        all_goals first
          | (rw [← Option.some.inj (Prod.mk.inj h).2]
             rfl)
          | cases h

/-- An offset that is handed out takes no number. -/
theorem firstFreeFd_allocOffset (offset fuel : ℕ) (start : Int) :
    (w.allocOffset offset).firstFreeFd fuel start = w.firstFreeFd fuel start := by
  induction fuel generalizing start with
  | zero => rfl
  | succ fuel ih =>
    have hstat : (w.allocOffset offset).fdStat start = w.fdStat start := rfl
    simp only [firstFreeFd, hstat, ih]

/-- What is duplicated does not decide the number of the duplicate. -/
theorem allocateDynamicFileFd_of_duplicate {fd : Int} {file : OpenFile}
    (h : w.duplicateOpenFileForFd fd = (w', some file)) (minResultFd : Int) :
    (w'.allocateDynamicFileFd minResultFd).2 = (w.allocateDynamicFileFd minResultFd).2 := by
  rcases w.duplicateOpenFileForFd_spec h with ⟨rfl, -⟩ | ⟨rfl, -⟩
  · rfl
  · exact w.firstFreeFd_allocOffset 0 _ _

/-- Duplicating alone changes no rights. -/
theorem reportedRights_after_duplicate {fd : Int} {file : OpenFile}
    (h : w.duplicateOpenFileForFd fd = (w', some file)) (fd' : Int) :
    w'.reportedRights fd' = w.reportedRights fd' := by
  have hquiet := w.quiet_duplicateOpenFileForFd h
  exact reportedRights_of_openFiles ⟨hquiet.packageRoot, hquiet.writable, hquiet.packageRootFd⟩
    hquiet.openFiles fd'

theorem reportedRights_allocated (minResultFd : Int) (fdFlagsExt : Flags) (fd : Int) :
    let allocated := w.allocateDynamicFileFd minResultFd
    (((allocated.1.retainOpenFile file).putOpenFile allocated.2 file).writeFdFlagsExt allocated.2
      fdFlagsExt).reportedRights fd =
        if fd = allocated.2 then some file.granted else w.reportedRights fd := by
  refine reportedRights_of_set ?_ ?_ fd
  · exact ⟨rfl, rfl, rfl⟩
  · rfl

/-- The duplicate takes the first number that is free. -/
theorem copyAttenuates_fdDup (mem : Memory) (fd retFdPtr : Int) :
    CopyAttenuates w (w.fdDup mem fd retFdPtr).1 fd (w.allocateDynamicFileFd firstFileFd).2 none
      (w.fdDup mem fd retFdPtr).2.2 := by
  unfold fdDup duplicateFd
  split
  · exact w.copyAttenuates_of_failed (by simp)
  split
  next w' h =>
    rw [w.duplicateOpenFileForFd_none h]
    exact w.copyAttenuates_of_failed (by simp)
  next w' file h =>
    rw [← w.allocateDynamicFileFd_of_duplicate h]
    have hset := w'.reportedRights_allocated file firstFileFd 0
    refine copyAttenuates_of_put (w.reportedRights_of_duplicate h) ?_ fun fd' hne _ => ?_
    · exact (hset _).trans (if_pos rfl)
    · exact (hset _).trans ((if_neg hne).trans (w.reportedRights_after_duplicate h fd'))

theorem reportedRights_closeReplaced (target fd : Int) :
    (w.closeReplaced target).reportedRights fd = w.reportedRights fd := by
  have hfixed : Fixed w (w.closeReplaced target) := by
    unfold closeReplaced
    split <;> exact ⟨rfl, rfl, rfl⟩
  exact reportedRights_of_openFiles hfixed rfl fd

theorem copyAttenuates_fdDup2 (mem : Memory) (fd targetFd cloexec retFdPtr : Int) :
    CopyAttenuates w (w.fdDup2 mem fd targetFd cloexec retFdPtr).1 fd (toUint32 targetFd) none
      (w.fdDup2 mem fd targetFd cloexec retFdPtr).2.2 := by
  unfold fdDup2 duplicateFdTo
  dsimp only
  split
  · exact w.copyAttenuates_of_failed (by simp)
  split
  · exact w.copyAttenuates_of_failed (mem.finishU32_ne_ok _ _ _)
  split
  · exact w.copyAttenuates_of_failed (mem.finishU32_ne_ok _ _ _)
  split
  next hself =>
    rw [← hself]
    exact w.copyAttenuates_self
  split
  next w' h =>
    rw [w.duplicateOpenFileForFd_none h]
    exact w.copyAttenuates_of_failed (mem.finishU32_ne_ok _ _ _)
  next w' file h =>
    split
    · exact w.copyAttenuates_of_failed (mem.finishU32_ne_ok _ _ _)
    generalize toUint32 targetFd = target
    generalize (if cloexec = 1 then fdflagsExtCloexec else 0) = flags
    have hset : ∀ fd', (((((w'.closeReplaced target).retainOpenFile file).putOpenFile target
        file).writeFdFlagsExt target flags).reserveFd target).reportedRights fd' =
          if fd' = target then some file.granted
          else (w'.closeReplaced target).reportedRights fd' := by
      intro fd'
      refine reportedRights_of_set ?_ ?_ fd'
      · exact ⟨rfl, rfl, rfl⟩
      · rfl
    refine copyAttenuates_of_put (w.reportedRights_of_duplicate h) ?_ fun fd' hne _ => ?_
    · exact (hset _).trans (if_pos rfl)
    · rw [← w.reportedRights_after_duplicate h, ← w'.reportedRights_closeReplaced target]
      exact (hset _).trans (if_neg hne)

theorem copyAttenuates_fdRenumber (fd target : Int) :
    CopyAttenuates w (w.fdRenumber fd target).1 fd target (some fd) (w.fdRenumber fd target).2 := by
  unfold fdRenumber
  split
  · exact w.copyAttenuates_of_failed (by simp)
  next file hfile =>
    split
    · exact w.copyAttenuates_of_failed (by simp)
    split
    · exact w.copyAttenuates_of_failed (by simp)
    split
    next hself =>
      rw [← hself]
      exact w.copyAttenuates_self
    next hne =>
      have hset : ∀ flags fd', (((((w.closeReplaced target).dropOpenFile fd).putOpenFile target
          file).setFdFlagsExt flags).reserveFd target).reportedRights fd' =
            if fd' = target then some file.granted
            else ((w.closeReplaced target).dropOpenFile fd).reportedRights fd' := by
        intro flags fd'
        refine reportedRights_of_set ?_ ?_ fd'
        · exact ⟨rfl, rfl, rfl⟩
        · rfl
      refine copyAttenuates_of_put (w.reportedRights_of_openFile hfile) ?_ fun fd' hne' hfd' => ?_
      · exact (hset _ _).trans (if_pos rfl)
      -- the source is gone from the table, and no other number has changed
      have hdrop : ((w.closeReplaced target).dropOpenFile fd).reportedRights fd' =
          w.reportedRights fd' := by
        have hget : ((w.closeReplaced target).dropOpenFile fd).openFile fd' =
            (w.closeReplaced target).openFile fd' :=
          OrdMap.get_delete_ne _ fun h => hfd' (congrArg some h)
        rw [← w.reportedRights_closeReplaced target fd', reportedRights_eq, hget, reportedRights_eq]
        rfl
      rw [← hdrop]
      exact (hset _ _).trans (if_neg hne')

/-! ### Setting rights -/

/-- After success exactly the given rights are reported. -/
def SetRightsTakesEffect (fd : Int) (rightsBase rightsInheriting : Rights) : Prop :=
  let result := w.fdFdstatSetRights fd rightsBase rightsInheriting
  result.2 = .ok () →
    ∃ inheriting, result.1.reportedRights fd = some (rightsBase, inheriting) ∧
      ((w.fdStat fd).map FdStat.filetype = some .directory → inheriting = rightsInheriting)

/-- The descriptor is in the table, or nothing is asked for that it does not have, or the request
is rejected. -/
def SetRightsEffective (fd : Int) (rightsBase rightsInheriting : Rights) : Prop :=
  ∀ stat, w.fdStat fd = some stat → allowsRights rightsBase stat.rights = true →
    allowsRights rightsInheriting stat.inheriting = true →
    (w.openFile fd).isSome = true ∨
      (rightsBase = stat.rights ∧
        (stat.filetype = .directory → rightsInheriting = stat.inheriting))

theorem granted_withRights (rightsBase rightsInheriting : Rights) :
    ∃ inheriting, (withRights file rightsBase rightsInheriting).granted =
      (rightsBase, inheriting) ∧
      (file.isOpenDirectory = true → inheriting = rightsInheriting) := by
  obtain ⟨kind, mount, path, rights, fdflags⟩ := file
  cases kind with
  | directory => exact ⟨rightsInheriting, rfl, fun _ => rfl⟩
  | _ => exact ⟨0, rfl, fun h => absurd h (by simp [OpenFile.isOpenDirectory])⟩

theorem filetype_openFileStat :
    (w.openFileStat file).filetype = .directory ↔ file.isOpenDirectory = true := by
  obtain ⟨kind, mount, path, rights, fdflags⟩ := file
  cases kind with
  | pipe direction pipe => cases direction <;> simp [openFileStat, OpenFile.isOpenDirectory]
  | _ => simp [openFileStat, OpenFile.isOpenDirectory]

theorem setRightsTakesEffect_iff (rightsBase rightsInheriting : Rights) :
    w.SetRightsTakesEffect fd rightsBase rightsInheriting ↔
      w.SetRightsEffective fd rightsBase rightsInheriting := by
  unfold SetRightsTakesEffect SetRightsEffective fdFdstatSetRights
  cases hstat : w.fdStat fd with
  | none => simp
  | some stat =>
    by_cases hallowed : allowsRights rightsBase stat.rights = false ∨
        allowsRights rightsInheriting stat.inheriting = false
    · simp only [hallowed, if_true]
      refine iff_of_true (by simp) fun stat' hstat' hbase hinheriting => ?_
      obtain rfl := Option.some.inj hstat'
      rcases hallowed with h | h
      · simp [h] at hbase
      · simp [h] at hinheriting
    · have hboth : allowsRights rightsBase stat.rights = true ∧
          allowsRights rightsInheriting stat.inheriting = true := by simpa using hallowed
      simp only [hallowed, if_false]
      cases hfile : w.openFile fd with
      | some file =>
        refine iff_of_true (fun _ => ?_) fun _ _ _ _ => .inl rfl
        obtain ⟨inheriting, hgranted, hdir⟩ :=
          granted_withRights file rightsBase rightsInheriting
        refine ⟨inheriting, ?_, fun h => hdir ?_⟩
        · have hset : (w.putOpenFile fd (withRights file rightsBase
              rightsInheriting)).reportedRights fd = if fd = fd then
                some (withRights file rightsBase rightsInheriting).granted
                else w.reportedRights fd := by
            refine reportedRights_of_set ?_ ?_ fd
            · exact ⟨rfl, rfl, rfl⟩
            · rfl
          rw [if_pos rfl, hgranted] at hset
          exact hset
        · rw [w.fdStat_of_openFile hfile] at hstat
          obtain rfl := Option.some.inj hstat
          exact (w.filetype_openFileStat file).1 (Option.some.inj h)
      | none =>
        have hreported : w.reportedRights fd = some (stat.rights, stat.inheriting) := by
          rw [reportedRights, hstat]
          rfl
        simp only [hreported, Option.some.injEq, Prod.mk.injEq, Option.map_some, forall_const,
          Option.isSome_none, Bool.false_eq_true, false_or]
        constructor
        · rintro ⟨inheriting, ⟨hbase, hinheriting⟩, hdir⟩ stat' rfl _ _
          exact ⟨hbase.symm, fun h => (hdir h).symm.trans hinheriting.symm⟩
        · intro h
          obtain ⟨hbase, hdir⟩ := h stat rfl hboth.1 hboth.2
          exact ⟨stat.inheriting, ⟨hbase.symm, rfl⟩, fun h => (hdir h).symm⟩

end World

/-! ### Runs -/

namespace System

/-- A child reports no more for a number than its parent. -/
def ForkAttenuates (s s' : System) : Prop :=
  ∀ fd granted, s'.world.reportedRights fd = some granted →
    ∃ before, s.world.reportedRights fd = some before ∧ ContainedIn granted before

/-- What an event must do with rights. -/
def Attenuates (s : System) : Event → Prop
  | .call (.pathOpen fd dirflags path oflags rightsBase rightsInheriting fdflags) =>
      s.world.OpenAttenuates fd
        (s.world.pathOpen fd dirflags path oflags rightsBase rightsInheriting fdflags)
  | .call (.pathOpen2 fd dirflags path oflags rightsBase rightsInheriting fdflags fdFlagsExt) =>
      s.world.OpenAttenuates fd
        (s.world.pathOpen2 fd dirflags path oflags rightsBase rightsInheriting fdflags fdFlagsExt)
  | .call (.fdDup mem fd retFdPtr) =>
      World.CopyAttenuates s.world (s.world.fdDup mem fd retFdPtr).1 fd
        (s.world.allocateDynamicFileFd firstFileFd).2 none (s.world.fdDup mem fd retFdPtr).2.2
  | .call (.fdDup2 mem fd targetFd cloexec retFdPtr) =>
      World.CopyAttenuates s.world (s.world.fdDup2 mem fd targetFd cloexec retFdPtr).1 fd
        (toUint32 targetFd) none (s.world.fdDup2 mem fd targetFd cloexec retFdPtr).2.2
  | .call (.fdRenumber fd target) =>
      World.CopyAttenuates s.world (s.world.fdRenumber fd target).1 fd target (some fd)
        (s.world.fdRenumber fd target).2
  | .call (.fdFdstatSetRights fd rightsBase rightsInheriting) =>
      s.world.SetRightsTakesEffect fd rightsBase rightsInheriting
  | .fork => ForkAttenuates s s.fork
  | _ => True

/-- What is asked of an event for that: an opening that goes through heeds the rights of its
directory, and rights are set on descriptors in the table. -/
def HeedsRights (s : System) : Event → Prop
  | .call (.pathOpen fd dirflags path oflags rightsBase rightsInheriting fdflags) =>
      s.world.GrantHeeds fd
        (s.world.openGrant fd dirflags path oflags rightsBase rightsInheriting fdflags)
  | .call (.pathOpen2 fd dirflags path oflags rightsBase rightsInheriting fdflags fdFlagsExt) =>
      s.world.GrantHeeds fd
        (s.world.openGrant2 fd dirflags path oflags rightsBase rightsInheriting fdflags fdFlagsExt)
  | .call (.fdFdstatSetRights fd rightsBase rightsInheriting) =>
      s.world.SetRightsEffective fd rightsBase rightsInheriting
  | _ => True

/-- Every runtime has given the package root the number that a new runtime gives it. -/
def SameRootFd (s : System) : Prop :=
  ∀ r ∈ s.runtimes,
    r.packageRootFd = if s.host.packageRoot.preopen then some firstFileFd else none

variable {s : System}

theorem sameRootFd_step (h : s.SameRootFd) (e : Event) : (s.step e).SameRootFd := by
  have hworld := h s.runtime List.mem_cons_self
  -- neither the number nor what decides it changes
  have hfixed : ∀ {w : World}, World.Fixed s.world w → w.runtime.packageRootFd =
      (if w.host.packageRoot.preopen then some firstFileFd else none) ∧
        w.host.packageRoot = s.host.packageRoot := by
    intro w hw
    rw [hw.packageRoot, hw.packageRootFd]
    exact ⟨hworld, rfl⟩
  refine forall_runtimes_step (P := fun w => w.runtime.packageRootFd =
      if w.host.packageRoot.preopen then some firstFileFd else none)
    (G := fun host => host.packageRoot = s.host.packageRoot) h e (fun host hhost r hr => ?_)
    (fun c _ => hfixed (s.world.fixed_call c)) (fun w hplains _ => hfixed hplains.fixed)
    (fun snapshot => hfixed (s.world.fixed_childSnapshot snapshot))
    (fun host hhost => hhost.packageRoot)
    rfl
  rw [hhost]
  exact h r hr

theorem sameRootFd_boot (snapshot : Option World.SnapshotTree) (files rootFiles : List PackageFile)
    (cwd : Option Text) (stdin : Bytes) :
    (boot snapshot files rootFiles cwd stdin).SameRootFd := by
  intro r hr
  obtain rfl : r = World.newRuntime (createWasiWorkspaceMount snapshot files rootFiles) cwd stdin :=
    by simpa [runtimes, boot, start] using hr
  rfl

/-- A child has the table of its parent and the same built-in numbers. -/
theorem forkAttenuates_fork (h : s.SameRootFd) : ForkAttenuates s s.fork := by
  unfold fork
  split
  · have hfixed : World.Fixed s.world s.world.forkChild := by
      have hhost := s.world.sameButPipes_forkChild
      refine ⟨hhost.packageRoot, congrArg Workspace.writable hhost.workspace, ?_⟩
      have hparent := h s.runtime List.mem_cons_self
      rw [show s.host.packageRoot = s.world.forkChild.host.packageRoot from hhost.packageRoot.symm]
        at hparent
      exact hparent.symm
    intro fd granted hgranted
    have hsame : s.world.forkChild.reportedRights fd = s.world.reportedRights fd :=
      World.reportedRights_of_openFiles hfixed (World.mapVals_self _) fd
    exact ⟨granted, hsame.symm.trans hgranted, ContainedIn.refl granted⟩
  · exact fun fd granted hgranted => ⟨granted, hgranted, ContainedIn.refl granted⟩

theorem attenuates_event_iff (h : s.SameRootFd) (e : Event) : Attenuates s e ↔ HeedsRights s e := by
  cases e with
  | call c =>
    cases c with
    | pathOpen fd dirflags path oflags rightsBase rightsInheriting fdflags =>
      exact s.world.openAttenuates_iff fd (s.world.pathOpen_decides ..)
    | pathOpen2 fd dirflags path oflags rightsBase rightsInheriting fdflags fdFlagsExt =>
      exact s.world.openAttenuates_iff fd (s.world.pathOpen2_decides ..)
    | fdDup => exact iff_of_true (s.world.copyAttenuates_fdDup _ _ _) trivial
    | fdDup2 => exact iff_of_true (s.world.copyAttenuates_fdDup2 _ _ _ _ _) trivial
    | fdRenumber => exact iff_of_true (s.world.copyAttenuates_fdRenumber _ _) trivial
    | fdFdstatSetRights fd rightsBase rightsInheriting =>
      exact s.world.setRightsTakesEffect_iff fd rightsBase rightsInheriting
    | _ => exact Iff.rfl
  | fork => exact iff_of_true (forkAttenuates_fork h) trivial
  | _ => exact Iff.rfl

/-- Along every run rights are attenuated exactly when every opening that goes through heeds the
rights of the directory it opens through, and every accepted change of rights is made on a
descriptor in the table or changes nothing. -/
theorem attenuates_iff (snapshot : Option World.SnapshotTree) (files rootFiles : List PackageFile)
    (cwd : Option Text) (stdin : Bytes) (events : List Event) :
    Along step Attenuates (boot snapshot files rootFiles cwd stdin) events ↔
      Along step HeedsRights (boot snapshot files rootFiles cwd stdin) events :=
  along_iff (I := SameRootFd) (p := Attenuates) (q := HeedsRights)
    (fun _ e h => sameRootFd_step h e) (fun _ e h => attenuates_event_iff h e)
    (sameRootFd_boot snapshot files rootFiles cwd stdin) events

/-- A duplicate of the workspace directory loses every right, and a file is created and opened
through it. -/
def openThroughStripped : List Event :=
  [.call (.fdDup ⟨64, fun _ => 0⟩ 3 0), .call (.fdFdstatSetRights 5 0 0),
    .call (.pathOpen 5 0 "f".toList oflagsCreat 0 0 0)]

/-- Through a directory without rights a file is created and opened for reading and writing, and
taking the rights away from the preopened directory itself succeeds without effect. -/
theorem not_attenuates_stripped :
    ¬Along step Attenuates (boot (some ⟨[], []⟩) [] [] none []) openThroughStripped ∧
      ¬Along step Attenuates (boot (some ⟨[], []⟩) [] [] none [])
        [.call (.fdFdstatSetRights 3 0 0)] := by
  refine ⟨fun h => ?_, fun h => ?_⟩
  · obtain ⟨source, opened, hsource, -, -, hopen, -⟩ := h.2.2.1
    have hnone : (runAll step (boot (some ⟨[], []⟩) [] [] none [])
        (openThroughStripped.take 2)).world.reportedRights 5 = some (0, 0) := by decide
    obtain rfl := Option.some.inj (hsource.symm.trans hnone)
    exact absurd hopen (by decide)
  · obtain ⟨inheriting, hreported, -⟩ := h.1 (by decide)
    have hkept : (boot (some ⟨[], []⟩) [] [] none []).world.reportedRights 3 =
        some (writableWorkspaceRights, scratchFileRights) := by decide
    have heq : (0 : Rights) = writableWorkspaceRights :=
      congrArg Prod.fst (Option.some.inj (hreported.symm.trans hkept))
    exact absurd heq (by decide)

end System

end WasmHost

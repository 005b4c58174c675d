import WasmHost.Wasi.Attenuation
import WasmHost.Wasi.FreshNumbers

/-!
# Descriptor numbers over a run

What holds of the numbers in every state of a run, and which descriptors a guest can use. The number
behind all others grows with every descriptor that is moved to a number beyond it, and `path_open`
takes it without asking whether a guest can still pass it back.

* `System.numbersInOrder`: in every state of a run the numbers in use are below the mark, an import
  that opens a descriptor hands out a good number if and only if it takes one below `2 ^ 31`, and
  extended flags belong to open descriptors as long as `path_open2` takes numbers below `2 ^ 32`.
* `System.not_handsOut`: a number that a guest cannot pass back.
-/

namespace WasmHost

open OrdMap

/-! ### Extended flags -/

/-- The numbers that denote something without being in the table. -/
def Builtin (packageRootFd : Option Int) (fd : Int) : Prop :=
  isStdioFd fd = true ∨ fd = workspaceFd ∨ fd = tmpFd ∨ some fd = packageRootFd

namespace World

theorem isSome_builtinStat_iff (w : World) (fd : Int) :
    (w.builtinStat fd).isSome = true ↔ Builtin w.runtime.packageRootFd fd := by
  unfold builtinStat stdioRights Builtin isStdioFd
  grind

theorem isSome_fdStat_iff (w : World) (fd : Int) :
    (w.fdStat fd).isSome = true ↔
      w.runtime.openFiles.has fd = true ∨ Builtin w.runtime.packageRootFd fd := by
  rw [isSome_fdStat, Bool.or_eq_true, isSome_builtinStat_iff]

end World

namespace Runtime

/-- The number of the package root stays, and the number behind all others does not fall. -/
structure NumbersKept (r r' : Runtime) : Prop where
  root : r'.packageRootFd = r.packageRootFd
  mark : r.nextFileFd ≤ r'.nextFileFd

/-- New flags belong to numbers that denote something, and old ones to numbers that are kept. -/
structure FlagsKept (r r' : Runtime) : Prop extends NumbersKept r r' where
  flags : ∀ fd, r'.fdFlagsExt.has fd = true →
    (r'.openFiles.has fd = true ∨ Builtin r.packageRootFd fd) ∨
      r.fdFlagsExt.has fd = true ∧ (r.openFiles.has fd = true → r'.openFiles.has fd = true)

/-- Only numbers that denote something have extended flags. -/
def Flagged (r : Runtime) : Prop :=
  ∀ fd, r.fdFlagsExt.has fd = true → r.openFiles.has fd = true ∨ Builtin r.packageRootFd fd

/-- The package root is not behind all others. -/
def RootBelow (r : Runtime) : Prop := ∀ fd, r.packageRootFd = some fd → fd < r.nextFileFd

variable {r r' : Runtime}

theorem FlagsKept.refl (r : Runtime) : r.FlagsKept r :=
  ⟨⟨rfl, le_rfl⟩, fun _ hfd => .inr ⟨hfd, id⟩⟩

theorem FlagsKept.flagged (hkept : r.FlagsKept r') (h : r.Flagged) : r'.Flagged := by
  intro fd hfd
  rw [hkept.root]
  rcases hkept.flags fd hfd with hnew | ⟨hold, hstays⟩
  · exact hnew
  · exact (h fd hold).imp_left hstays

theorem NumbersKept.rootBelow (hkept : r.NumbersKept r') (h : r.RootBelow) : r'.RootBelow :=
  fun fd hfd => (h fd (hkept.root ▸ hfd)).trans_le hkept.mark

end Runtime

namespace World

variable {w w' w₁ : World} {fdFlagsExt : Flags}

theorem SameNumbers.flagsKept (hsame : SameNumbers w w') : w.runtime.FlagsKept w'.runtime := by
  refine ⟨⟨hsame.root, hsame.mark.ge⟩, fun fd hfd => .inr ⟨hsame.flags ▸ hfd, fun hhas => ?_⟩⟩
  rw [hsame.has, hhas]

theorem flagsKept_fdClose (w : World) (fd : Int) :
    w.runtime.FlagsKept (w.fdClose fd).1.runtime := by
  unfold fdClose
  split
  next file hfile =>
    refine ⟨⟨rfl, le_rfl⟩, fun fd' hfd' => ?_⟩
    obtain ⟨hne, hflag⟩ := has_delete_iff.1 hfd'
    exact .inr ⟨hflag, fun hhas => has_delete_iff.2 ⟨hne, hhas⟩⟩
  · exact .refl _

theorem le_reserveFd (w : World) (target : Int) :
    w.runtime.nextFileFd ≤ (w.reserveFd target).runtime.nextFileFd := by
  simp only [reserveFd]
  split <;> omega

theorem le_allocateDynamicFileFd (w : World) (minResultFd : Int) :
    w.runtime.nextFileFd ≤ (w.allocateDynamicFileFd minResultFd).1.runtime.nextFileFd := by
  simp only [allocateDynamicFileFd]
  split <;> omega

/-- The flags move with the descriptor. -/
theorem flagsKept_fdRenumber (w : World) (fd target : Int) :
    w.runtime.FlagsKept (w.fdRenumber fd target).1.runtime := by
  unfold fdRenumber
  split
  · exact .refl _
  next file hfile =>
    split
    · exact .refl _
    split
    · exact .refl _
    split
    · exact .refl _
    have hset : ∀ fd', fd' = target ∨ (fd' ≠ fd ∧ w.runtime.openFiles.has fd' = true) →
        ((w.runtime.openFiles.delete fd).set target file).has fd' = true := fun fd' h =>
      has_set_iff.2 (h.imp_right has_delete_iff.2)
    refine ⟨⟨rfl, le_reserveFd _ _⟩, fun fd' hfd' => ?_⟩
    by_cases htarget : fd' = target
    · exact .inl (.inl (hset fd' (.inl htarget)))
    · have hdeleted : ((w.runtime.fdFlagsExt.delete fd).delete target).has fd' = true := by
        cases hget : w.runtime.fdFlagsExt.get fd with
        | none =>
          rw [hget] at hfd'
          exact hfd'
        | some =>
          rw [hget] at hfd'
          exact (has_set_iff.1 hfd').resolve_left htarget
      obtain ⟨hne, hold⟩ := has_delete_iff.1 (has_delete_iff.1 hdeleted).2
      exact .inr ⟨hold, fun hhas => hset fd' (.inr ⟨hne, hhas⟩)⟩

/-- Setting or clearing the flags of one number. -/
theorem has_writeFdFlagsExt (w : World) {fd fd' : Int}
    (h : (w.writeFdFlagsExt fd fdFlagsExt).runtime.fdFlagsExt.has fd' = true) :
    fd' = fd ∨ w.runtime.fdFlagsExt.has fd' = true := by
  simp only [writeFdFlagsExt, setFdFlagsExt] at h
  split at h
  · exact .inr (has_delete_iff.1 h).2
  · exact has_set_iff.1 h

/-- A new entry comes with flags of its own. -/
theorem flagsKept_of_written {target : Int} {file : OpenFile}
    (hroot : w'.runtime.packageRootFd = w.runtime.packageRootFd)
    (hmark : w.runtime.nextFileFd ≤ w'.runtime.nextFileFd)
    (hflags : w'.runtime.fdFlagsExt = (w.writeFdFlagsExt target fdFlagsExt).runtime.fdFlagsExt)
    (hset : w'.runtime.openFiles = w.runtime.openFiles.set target file) :
    w.runtime.FlagsKept w'.runtime := by
  refine ⟨⟨hroot, hmark⟩, fun fd hfd => ?_⟩
  rw [hset]
  rcases w.has_writeFdFlagsExt (hflags ▸ hfd) with htarget | hold
  · exact .inl (.inl (has_set_iff.2 (.inl htarget)))
  · exact .inr ⟨hold, fun hhas => has_set_iff.2 (.inr hhas)⟩

theorem flagsKept_fdDup (w : World) (mem : Memory) (fd retFdPtr : Int) :
    w.runtime.FlagsKept (w.fdDup mem fd retFdPtr).1.runtime := by
  have hruntime := w.runtime_duplicateOpenFileForFd fd
  unfold fdDup duplicateFd
  split
  · exact .refl _
  cases hdup : w.duplicateOpenFileForFd fd with
  | mk w' source =>
    rw [hdup] at hruntime
    rw [← hruntime]
    cases source with
    | none => exact .refl _
    | some => exact flagsKept_of_written rfl (w'.le_allocateDynamicFileFd firstFileFd) rfl rfl

theorem flagsKept_fdDup2 (w : World) (mem : Memory) (fd targetFd cloexec retFdPtr : Int) :
    w.runtime.FlagsKept (w.fdDup2 mem fd targetFd cloexec retFdPtr).1.runtime := by
  have hruntime := w.runtime_duplicateOpenFileForFd fd
  unfold fdDup2 duplicateFdTo
  generalize (if cloexec = 1 then fdflagsExtCloexec else 0) = fdFlagsExt
  dsimp only
  split
  · exact .refl _
  split
  · exact .refl _
  split
  · exact .refl _
  split
  · exact .refl _
  cases hdup : w.duplicateOpenFileForFd fd with
  | mk w' source =>
    rw [hdup] at hruntime
    have hruntime : w'.runtime = w.runtime := hruntime
    cases source with
    | none =>
      rw [← hruntime]
      exact .refl _
    | some =>
      dsimp only
      split
      · exact .refl _
      rw [← hruntime]
      exact flagsKept_of_written rfl (le_reserveFd _ _) rfl rfl

theorem flagsKept_fdPipe (w : World) (mem : Memory) (readFdPtr writeFdPtr : Int) :
    w.runtime.FlagsKept (w.fdPipe mem readFdPtr writeFdPtr).1.runtime := by
  unfold fdPipe
  split
  · exact .refl _
  refine ⟨⟨rfl, ?_⟩, fun fd hfd => .inr ⟨hfd, fun hhas => ?_⟩⟩
  · exact (w.allocPipe.le_allocateDynamicFileFd firstFileFd).trans
      (le_allocateDynamicFileFd _ _)
  · exact has_set_iff.2 (.inr (has_set_iff.2 (.inr hhas)))

theorem flagsKept_fdFdflagsSet (w : World) (fd : Int) (flags : Flags) :
    w.runtime.FlagsKept (w.fdFdflagsSet fd flags).1.runtime := by
  unfold fdFdflagsSet
  split
  · exact .refl _
  split
  · exact .refl _
  next hstat =>
    rw [Bool.not_eq_true, Option.isNone_eq_false_iff] at hstat
    refine ⟨⟨rfl, le_rfl⟩, fun fd' hfd' => ?_⟩
    rcases w.has_writeFdFlagsExt hfd' with rfl | hold
    · exact .inl ((w.isSome_fdStat_iff fd').1 hstat)
    · exact .inr ⟨hold, id⟩

theorem numbersKept_pushOpenFile (hsame : SameNumbers w w₁) (file : OpenFile)
    (flags : OrdMap Int Flags) :
    w.runtime.NumbersKept ((w₁.pushOpenFile file).setFdFlagsExt flags).runtime := by
  refine ⟨hsame.root, ?_⟩
  change _ ≤ w₁.runtime.nextFileFd + 1
  rw [hsame.mark]
  omega

/-- The number behind all others gets an entry, and flags of its own at most. -/
theorem flagsKept_pushOpenFile (hsame : SameNumbers w w₁) (file : OpenFile)
    {flags : OrdMap Int Flags}
    (hflags : ∀ fd, flags.has fd = true →
      fd = w.runtime.nextFileFd ∨ w.runtime.fdFlagsExt.has fd = true) :
    w.runtime.FlagsKept ((w₁.pushOpenFile file).setFdFlagsExt flags).runtime := by
  refine ⟨numbersKept_pushOpenFile hsame file flags, fun fd hfd => ?_⟩
  change ((w₁.runtime.openFiles.set w₁.runtime.nextFileFd file).has fd = true ∨ _) ∨
    _ ∧ (_ → (w₁.runtime.openFiles.set w₁.runtime.nextFileFd file).has fd = true)
  rw [has_set_iff, hsame.has, hsame.mark]
  rcases hflags fd hfd with rfl | hold
  · exact .inl (.inl (.inl rfl))
  · exact .inr ⟨hold, .inr⟩

/-- The number that `path_open2` stores is the one that it reads back. -/
def ReadsBack (w : World) : Call → Prop
  | .pathOpen2 .. => w.runtime.nextFileFd < 2 ^ 32
  | _ => True

theorem flagsKept_call (w : World) (hfirst : firstFileFd ≤ w.runtime.nextFileFd) {c : Call}
    (hc : w.ReadsBack c) : w.runtime.FlagsKept (w.call c).runtime := by
  by_cases hchanges : ChangesNumbers c
  · cases c with
    | fdClose fd => exact w.flagsKept_fdClose fd
    | fdRenumber fd target => exact w.flagsKept_fdRenumber fd target
    | fdDup mem fd retFdPtr => exact w.flagsKept_fdDup mem fd retFdPtr
    | fdDup2 mem fd targetFd cloexec retFdPtr =>
      exact w.flagsKept_fdDup2 mem fd targetFd cloexec retFdPtr
    | fdPipe mem readFdPtr writeFdPtr => exact w.flagsKept_fdPipe mem readFdPtr writeFdPtr
    | fdFdflagsSet fd flags => exact w.flagsKept_fdFdflagsSet fd flags
    | pathOpen fd dirflags path oflags rightsBase rightsInheriting fdflags =>
      simp only [call, callResult]
      rcases w.takesNext_pathOpen fd dirflags path oflags rightsBase rightsInheriting fdflags with
        ⟨errno, herror⟩ | ⟨w₁, file, hsame, hresult⟩
      · rw [herror]
        exact .refl _
      · rw [hresult]
        exact flagsKept_pushOpenFile hsame file fun fd hfd => .inr (hsame.flags ▸ hfd)
    | pathOpen2 fd dirflags path oflags rightsBase rightsInheriting fdflags fdFlagsExt =>
      have hback : toUint32 w.runtime.nextFileFd = w.runtime.nextFileFd := by
        have hc : w.runtime.nextFileFd < 2 ^ 32 := hc
        unfold firstFileFd at hfirst
        exact Int.emod_eq_of_lt (by omega) hc
      simp only [call, callResult]
      rcases w.pathOpen2_cases fd dirflags path oflags rightsBase rightsInheriting fdflags
        fdFlagsExt with ⟨errno, herror⟩ | ⟨w₁, file, flags, hsame, hflags, hresult⟩
      · rw [herror]
        exact .refl _
      · rw [hresult]
        refine flagsKept_pushOpenFile hsame file fun fd hfd => ?_
        rcases hflags with rfl | rfl
        · exact .inr hfd
        · rw [hback] at hfd
          exact has_set_iff.1 hfd
    | _ => exact hchanges.elim
  · exact (w.sameNumbers_call hchanges).flagsKept

theorem numbersKept_call (w : World) (hfirst : firstFileFd ≤ w.runtime.nextFileFd) (c : Call) :
    w.runtime.NumbersKept (w.call c).runtime := by
  by_cases hc : w.ReadsBack c
  · exact (w.flagsKept_call hfirst hc).toNumbersKept
  · cases c with
    | pathOpen2 fd dirflags path oflags rightsBase rightsInheriting fdflags fdFlagsExt =>
      simp only [call, callResult]
      rcases w.pathOpen2_cases fd dirflags path oflags rightsBase rightsInheriting fdflags
        fdFlagsExt with ⟨errno, herror⟩ | ⟨w₁, file, flags, hsame, -, hresult⟩
      · rw [herror]
        exact ⟨rfl, le_rfl⟩
      · rw [hresult]
        exact numbersKept_pushOpenFile hsame file flags
    | _ => exact absurd trivial hc

/-- A child command that returns a workspace leaves the numbers. -/
theorem sameNumbers_childSnapshot (w : World) (snapshot : SnapshotTree) :
    SameNumbers w (w.importWasiWorkspaceSnapshot snapshot).rebindOpenWorkspaceFiles := by
  refine childSnapshot_induction (P := SameNumbers w) (fun w' h => sameNumbers_of_runtime h.runtime)
    (fun w' path h => ?_) fun w' fd file old record writable offset hfile _ h => ?_
  · exact h.trans (sameNumbers_perform w' .workspace (.createFile path w'.host.records.next))
  · exact h.trans (sameNumbers_putOpenFile hfile _)

/-- A child runtime starts with the numbers of its parent. -/
theorem sameNumbers_forkChild {w : World}
    (hroot : w.runtime.packageRootFd =
      if w.host.packageRoot.preopen then some firstFileFd else none) :
    SameNumbers w w.forkChild where
  has fd := by rw [w.openFiles_forkChild]
  flags := rfl
  root := by
    rw [hroot, ← w.sameButPipes_forkChild.packageRoot]
    rfl
  mark := rfl

end World

/-! ### Runs -/

namespace System

variable {s : System}

/-- What holds of every live runtime goes on to hold if the calls and what leaves the numbers keep
it. -/
theorem forall_numbers_step {P : Runtime → Prop} (hroot : s.SameRootFd) (h : ∀ r ∈ s.runtimes, P r)
    (e : Event) (hcall : ∀ c, e = .call c → P (s.world.call c).runtime)
    (hsame : ∀ w, World.SameNumbers s.world w → P w.runtime) : ∀ r ∈ (s.step e).runtimes, P r :=
  forall_runtimes_step (P := fun w => P w.runtime) (G := fun _ => True) h e (fun _ _ r hr => h r hr)
    (fun c hc => ⟨hcall c hc, trivial⟩)
    (fun w _ hruntime => ⟨hsame w (World.sameNumbers_of_runtime hruntime), trivial⟩)
    (fun snapshot => ⟨hsame _ (s.world.sameNumbers_childSnapshot snapshot), trivial⟩)
    (fun _ _ => trivial)
    (hsame _ (World.sameNumbers_forkChild (hroot s.runtime List.mem_cons_self)))

/-- The descriptor tables of the live runtimes are in order. -/
structure Tables (s : System) : Prop where
  exact : s.Exact
  numbered : s.Numbered
  root : s.SameRootFd
  below : ∀ r ∈ s.runtimes, r.RootBelow

theorem Tables.step (h : s.Tables) (e : Event) : (s.step e).Tables where
  exact := h.exact.step e
  numbered := h.numbered.step h.exact e
  root := sameRootFd_step h.root e
  below := by
    have hbelow := h.below s.runtime List.mem_cons_self
    have hfirst := (h.exact.fresh s.runtime List.mem_cons_self).first
    refine forall_numbers_step h.root h.below e (fun c _ => ?_) fun w hw => ?_
    · exact (s.world.numbersKept_call hfirst c).rootBelow hbelow
    · exact hw.flagsKept.toNumbersKept.rootBelow hbelow

theorem tables_boot (snapshot : Option World.SnapshotTree) (files rootFiles : List PackageFile)
    (cwd : Option Text) (stdin : Bytes) : (boot snapshot files rootFiles cwd stdin).Tables where
  exact := exact_start (pipes_createWasiWorkspaceMount ..) cwd stdin
  numbered := numbered_boot snapshot files rootFiles cwd stdin
  root := sameRootFd_boot snapshot files rootFiles cwd stdin
  below := by
    intro r hr fd hfd
    obtain rfl :
      r = World.newRuntime (createWasiWorkspaceMount snapshot files rootFiles) cwd stdin :=
      by simpa [runtimes, boot, start] using hr
    unfold World.newRuntime at hfd ⊢
    dsimp only at hfd ⊢
    split at hfd
    next hpreopen =>
      rw [if_pos hpreopen, ← Option.some.inj hfd]
      decide
    · cases hfd

theorem tables_of_reach {snapshot : Option World.SnapshotTree} {files rootFiles : List PackageFile}
    {cwd : Option Text} {stdin : Bytes}
    (hreach : Reach step (boot snapshot files rootFiles cwd stdin) s) : s.Tables :=
  hreach.invariant (tables_boot snapshot files rootFiles cwd stdin) fun _ e h _ => h.step e

theorem Tables.handsOut_iff (h : s.Tables) {mem : Memory} {o : Opening}
    (hok : (s.world.opening mem o).2.2 = .ok ()) :
    s.world.HandsOut mem o ↔ s.world.Addresses (o.call mem) := by
  have hnumbered : (s.world.opening mem o).1.Numbered := by
    rw [World.fst_opening]
    exact World.numbered_call h.exact.sound h.numbered.world _
  have hmem : s.runtime ∈ s.runtimes := List.mem_cons_self
  exact World.handsOut_iff (w := s.world) (h.exact.fresh _ hmem) (h.below _ hmem) hnumbered hok

/-- Only numbers that denote something have extended flags, in every live runtime. -/
def Flagged (s : System) : Prop := ∀ r ∈ s.runtimes, r.Flagged

/-- Every number that `path_open2` stores is the one that it reads back. -/
def ReadsBack (s : System) (e : Event) : Prop := ∀ c, e = .call c → s.world.ReadsBack c

theorem Flagged.step (h : s.Flagged) (htables : s.Tables) {e : Event} (he : s.ReadsBack e) :
    (s.step e).Flagged := by
  have hflagged := h s.runtime List.mem_cons_self
  have hfirst := (htables.exact.fresh s.runtime List.mem_cons_self).first
  refine forall_numbers_step htables.root h e (fun c hc => ?_) fun w hw => ?_
  · exact (s.world.flagsKept_call hfirst (he c hc)).flagged hflagged
  · exact hw.flagsKept.flagged hflagged

theorem flagged_boot (snapshot : Option World.SnapshotTree) (files rootFiles : List PackageFile)
    (cwd : Option Text) (stdin : Bytes) : (boot snapshot files rootFiles cwd stdin).Flagged := by
  intro r hr fd hfd
  obtain rfl : r = World.newRuntime (createWasiWorkspaceMount snapshot files rootFiles) cwd stdin :=
    by simpa [runtimes, boot, start] using hr
  cases hfd

/-- The numbers in the table that are not built in are below the mark. -/
def BelowMark (s : System) : Prop :=
  ∀ r ∈ s.runtimes, ∀ fd, r.openFiles.has fd = true → firstFileFd ≤ fd → fd < r.nextFileFd

/-- Every key of the extended flags is an open descriptor. -/
def FlagsOpen (s : System) : Prop :=
  ∀ r ∈ s.runtimes, ∀ fd, r.fdFlagsExt.has fd = true → ((World.mk s.host r).fdStat fd).isSome = true

/-- In every state of every run the numbers in the table are below the mark, and an import that
opens descriptors hands out good numbers exactly if they do not arrive negative. As long as
`path_open2` takes numbers below `2 ^ 32`, the extended flags belong to open descriptors. -/
theorem numbersInOrder (snapshot : Option World.SnapshotTree) (files rootFiles : List PackageFile)
    (cwd : Option Text) (stdin : Bytes) :
    (∀ s, Reach step (boot snapshot files rootFiles cwd stdin) s →
      s.BelowMark ∧
        ∀ mem o, (s.world.opening mem o).2.2 = .ok () →
          (s.world.HandsOut mem o ↔ s.world.Addresses (o.call mem))) ∧
      ∀ s, Run step ReadsBack (boot snapshot files rootFiles cwd stdin) s → s.FlagsOpen := by
  constructor
  · intro s hreach
    have htables := tables_of_reach hreach
    refine ⟨fun r hr fd hhas _ => ?_, fun mem o hok => ?_⟩
    · obtain ⟨file, hfile⟩ := (has_iff _ _).1 hhas
      exact (htables.exact.fresh r hr).lt fd file hfile
    · exact htables.handsOut_iff hok
  · intro s hrun
    have hboth : s.Tables ∧ s.Flagged := by
      refine hrun.invariant (I := fun t => t.Tables ∧ t.Flagged)
        ⟨tables_boot snapshot files rootFiles cwd stdin,
          flagged_boot snapshot files rootFiles cwd stdin⟩ fun t e ht he => ?_
      exact ⟨ht.1.step e, ht.2.step ht.1 he⟩
    intro r hr fd hfd
    exact (World.isSome_fdStat_iff _ fd).2 (hboth.2 r hr fd hfd)

/-- A guest that moves standard input to the largest number, and opens a file behind it. -/
def farOpened : System :=
  (boot none [] [] none []).step (.call (.fdDup2 smallMemory 0 (2 ^ 31 - 1) 0 0))

def openBehind : Opening := .pathOpen tmpFd 0 "a".toList oflagsCreat rightFdWrite 0 0 8

theorem not_handsOut :
    Reach step (boot none [] [] none []) farOpened ∧
      (farOpened.world.opening smallMemory openBehind).2.2 = .ok () ∧
        ¬farOpened.world.HandsOut smallMemory openBehind := by
  have hreach : Reach step (boot none [] [] none []) farOpened := reach_step _ _ _
  have hok : (farOpened.world.opening smallMemory openBehind).2.2 = .ok () := by decide
  refine ⟨hreach, hok, fun hout => ?_⟩
  have hlt : farOpened.runtime.nextFileFd < 2 ^ 31 :=
    ((tables_of_reach hreach).handsOut_iff hok).1 hout
  exact absurd hlt (by decide)

end System

end WasmHost

import WasmHost.Wasi.DescriptorNumbers
import WasmHost.Wasi.StandardInput

/-!
# Numbers of new descriptors

How the two allocators of descriptor numbers share a table. `path_open` takes the number behind
all that were ever used, `fd_dup` and `fd_pipe` the first one that is free.

* `World.SameNumbers`: what most calls keep.
* `World.handsOut_iff`: when the guest can use the numbers that an import stores for the descriptors
  it has opened.
-/

namespace WasmHost

open OrdMap List

namespace World

/-! ### Calls that open nothing -/

/-- The same numbers are open, with the same extended flags. -/
structure SameNumbers (w w' : World) : Prop where
  has : ∀ fd, w'.runtime.openFiles.has fd = w.runtime.openFiles.has fd
  flags : w'.runtime.fdFlagsExt = w.runtime.fdFlagsExt
  root : w'.runtime.packageRootFd = w.runtime.packageRootFd
  mark : w'.runtime.nextFileFd = w.runtime.nextFileFd

theorem SameNumbers.refl (w : World) : SameNumbers w w := ⟨fun _ => rfl, rfl, rfl, rfl⟩

variable {w w' : World}

theorem SameNumbers.trans {w'' : World} (h : SameNumbers w w') (h' : SameNumbers w' w'') :
    SameNumbers w w'' :=
  ⟨fun fd => (h'.has fd).trans (h.has fd), h'.flags.trans h.flags, h'.root.trans h.root,
    h'.mark.trans h.mark⟩

theorem sameNumbers_of_runtime (h : w'.runtime = w.runtime) : SameNumbers w w' :=
  ⟨fun _ => by rw [h], by rw [h], by rw [h], by rw [h]⟩

/-- A descriptor is replaced by another one. -/
theorem sameNumbers_putOpenFile {fd : Int} {old : OpenFile} (hold : w.openFile fd = some old)
    (file : OpenFile) : SameNumbers w (w.putOpenFile fd file) := by
  refine ⟨fun fd' => ?_, rfl, rfl, rfl⟩
  change (w.runtime.openFiles.set fd file).has fd' = _
  rw [has_set]
  by_cases h : fd' = fd
  · rw [h, has_of_get hold, Bool.or_true]
  · rw [decide_eq_false h, Bool.false_or]

/-- An edit of a mount leaves the numbers. -/
theorem sameNumbers_perform (w : World) (mount : VirtualMount) (e : Mount.Edit ℕ) :
    SameNumbers w (w.perform mount e) := by
  have hhas : ∀ fd, (w.perform mount e).runtime.openFiles.has fd = w.runtime.openFiles.has fd := by
    intro fd
    rw [openFiles_perform, has_mapVals]
  cases mount <;> cases e <;> exact ⟨hhas, rfl, rfl, rfl⟩

section

variable (w : World)

theorem runtime_resizeOpenFile (file : OpenFile) (record size : ℕ) :
    (w.resizeOpenFile file record size).runtime = w.runtime := by
  unfold resizeOpenFile markOpenFileDirty
  repeat' split
  all_goals rfl

variable (mem : Memory)

theorem runtime_fdWrite (fd iovsPtr iovsLen nwrittenPtr : Int) :
    (w.fdWrite mem fd iovsPtr iovsLen nwrittenPtr).1.runtime = w.runtime := by
  have hstdio : ∀ file stdioFd,
      (w.fdWriteStdio mem file stdioFd iovsPtr iovsLen nwrittenPtr).1.runtime = w.runtime := by
    intro file stdioFd
    unfold fdWriteStdio
    repeat' split
    all_goals rfl
  have hpipe : ∀ file direction pipe,
      (w.fdWritePipe mem file direction pipe iovsPtr iovsLen nwrittenPtr).1.runtime =
      w.runtime := by
    intro file direction pipe
    unfold fdWritePipe
    repeat' split
    all_goals rfl
  unfold fdWrite
  repeat' split
  all_goals first
    | rfl
    | exact hstdio _ _
    | exact hpipe _ _ _
    | exact w.runtime_writeOpenFile ..

theorem runtime_fdPwrite (fd iovsPtr iovsLen offset nwrittenPtr : Int) :
    (w.fdPwrite mem fd iovsPtr iovsLen offset nwrittenPtr).1.runtime = w.runtime := by
  have hat : ∀ file record chunks start,
      (w.writeOpenFileAt file record chunks start).1.runtime = w.runtime :=
      fun file record chunks start => by
    unfold writeOpenFileAt markOpenFileDirty
    dsimp only
    repeat' split
    all_goals rfl
  unfold fdPwrite
  repeat' split
  all_goals first
    | rfl
    | exact hat _ _ _ _

/-- Reading moves the position in standard input at most. -/
theorem sameNumbers_fdRead (fd iovsPtr iovsLen nreadPtr : Int) :
    SameNumbers w (w.fdRead mem fd iovsPtr iovsLen nreadPtr).1 := by
  have hstdin : ∀ m, SameNumbers w (w.readStdin m iovsPtr iovsLen nreadPtr).1 := by
    intro m
    unfold readStdin
    split
    · exact .refl w
    · exact ⟨fun _ => rfl, rfl, rfl, rfl⟩
  unfold fdRead fdReadPipe fdReadStdio readOpenFile
  repeat' split
  all_goals first
    | exact .refl w
    | exact hstdin _
    | exact ⟨fun _ => rfl, rfl, rfl, rfl⟩

theorem sameNumbers_fdFdstatSetRights (fd : Int) (rightsBase rightsInheriting : Rights) :
    SameNumbers w (w.fdFdstatSetRights fd rightsBase rightsInheriting).1 := by
  unfold fdFdstatSetRights
  repeat' split
  all_goals first
    | exact .refl w
    | exact sameNumbers_putOpenFile (by assumption) _

end

/-- The calls that open, close or move a descriptor, or change its extended flags. -/
def ChangesNumbers : Call → Prop
  | .fdClose .. | .fdRenumber .. | .fdDup .. | .fdDup2 .. | .fdPipe .. | .fdFdflagsSet .. |
    .pathOpen ..
  | .pathOpen2 .. => True
  | _ => False

/-- All other calls leave the numbers. -/
theorem sameNumbers_call (w : World) {c : Call} (hc : ¬ChangesNumbers c) :
    SameNumbers w (w.call c) := by
  have hedit : ∀ c, EditsEntry c → SameNumbers w (w.call c) := by
    intro c hc
    rcases w.call_eq_perform hc with heq | ⟨mount, e, -, heq⟩
    · rw [heq]
      exact .refl w
    · rw [heq]
      exact sameNumbers_perform w mount e
  cases c with
  | fdClose | fdRenumber | fdDup | fdDup2 | fdPipe | fdFdflagsSet | pathOpen | pathOpen2 =>
    exact absurd trivial hc
  | fdFdstatSetRights => exact w.sameNumbers_fdFdstatSetRights ..
  | fdRead => exact w.sameNumbers_fdRead ..
  | fdWrite => exact sameNumbers_of_runtime (w.runtime_fdWrite ..)
  | fdPwrite => exact sameNumbers_of_runtime (w.runtime_fdPwrite ..)
  | fdReaddir => exact .refl w
  | fdAllocate | fdFilestatSetSize =>
    refine sameNumbers_of_runtime ?_
    dsimp only [call, callResult, fdAllocate, growDescriptor, fdFilestatSetSize, resizeDescriptor]
    repeat' split
    all_goals first
      | rfl
      | exact w.runtime_resizeOpenFile ..
  | pathCreateDirectory | pathUnlinkFile | pathRemoveDirectory | pathRename => exact hedit _ trivial
  | fdPread | fdSeek | fdTell | chdir =>
    dsimp only [call, callResult, fdPread, fdSeek, fdTell, chdir]
    repeat' split
    all_goals exact ⟨fun _ => rfl, rfl, rfl, rfl⟩

/-! ### Opening a path -/

/-- Opening fails and changes nothing, or takes the next number. -/
def TakesNext (w : World) (result : OpenResult) : Prop :=
  (∃ errno, result = (w, .error errno)) ∨
    ∃ w₁ file, SameNumbers w w₁ ∧ result = (w₁.pushOpenFile file, .ok w.runtime.nextFileFd)

theorem Prepares.sameNumbers {w₁ : World} (h : Prepares w w₁) : SameNumbers w w₁ := by
  refine ⟨fun fd => by rw [h.openFiles], ?_, ?_, ?_⟩
  all_goals
    cases h with
    | found => rfl
    | created mount | truncated mount => cases mount <;> rfl

theorem OpensOne.takesNext {result : OpenResult} (h : OpensOne w result) : TakesNext w result := by
  rcases h with herror | ⟨w₁, offset, file, hprepares, -, -, hresult⟩
  · exact .inl herror
  · have hsame := hprepares.sameNumbers
    refine .inr ⟨w₁.allocOffset offset, file, ⟨hsame.has, hsame.flags, hsame.root, hsame.mark⟩, ?_⟩
    rw [hresult, ← hsame.mark]
    rfl

theorem takesNext_pathOpen (w : World) (fd : Int) (dirflags : Flags) (path : Text) (oflags : Flags)
    (rightsBase rightsInheriting : Rights) (fdflags : Flags) :
    TakesNext w (w.pathOpen fd dirflags path oflags rightsBase rightsInheriting fdflags) :=
  (w.opensOne_pathOpen ..).takesNext

/-! ### Free numbers -/

section

variable {w w' : World} {start : Int}

theorem isSome_fdStat (w : World) (fd : Int) :
    (w.fdStat fd).isSome = (w.runtime.openFiles.has fd || (w.builtinStat fd).isSome) := by
  unfold fdStat
  cases h : w.openFile fd with
  | some => rw [has_of_get h, Bool.true_or]; rfl
  | none => rw [(has_eq_false_iff _ _).2 h, Bool.false_or]

/-- Which numbers denote something without the table depends on the package root only. -/
theorem isSome_builtinStat (h : w'.runtime.packageRootFd = w.runtime.packageRootFd) (fd : Int) :
    (w'.builtinStat fd).isSome = (w.builtinStat fd).isSome := by
  unfold builtinStat
  rw [h]
  repeat' split
  all_goals rfl

variable {fd : Int}

theorem fdStat_eq_none_iff :
    w.fdStat fd = none ↔
      w.runtime.openFiles.has fd = false ∧ (w.builtinStat fd).isSome = false := by
  rw [← Option.not_isSome_iff_eq_none, Bool.not_eq_true, isSome_fdStat, Bool.or_eq_false_iff]

/-- The search stops at the first free number. -/
theorem firstFreeFd_le (fuel : ℕ) (hle : start ≤ fd) (hfree : w.fdStat fd = none) :
    w.firstFreeFd fuel start ≤ fd := by
  induction fuel generalizing start with
  | zero => exact hle
  | succ fuel ih =>
    unfold firstFreeFd
    split
    next hbusy =>
      have hne : start ≠ fd := by
        rintro rfl
        rw [hfree] at hbusy
        cases hbusy
      exact ih (by omega)
    · exact hle

/-- The number that is allocated is the first free one from `start` on. -/
structure FirstFree (w : World) (start fd : Int) : Prop where
  free : w.fdStat fd = none
  le : start ≤ fd
  least : ∀ fd', start ≤ fd' → w.fdStat fd' = none → fd ≤ fd'

theorem firstFree_allocate (w : World) (minResultFd : Int) :
    w.FirstFree (max firstFileFd (toUint32 minResultFd))
      (w.allocateDynamicFileFd minResultFd).2 where
  free := w.fdStat_firstFreeFd (le_max_left _ _)
  le := (w.firstFreeFd_spec _ _).1
  least _ hle hfree := firstFreeFd_le _ hle hfree

/-- What is free depends on the numbers only. -/
theorem fdStat_eq_none_congr (hhas : ∀ fd, w'.runtime.openFiles.has fd = w.runtime.openFiles.has fd)
    (hroot : w'.runtime.packageRootFd = w.runtime.packageRootFd) (fd : Int) :
    w'.fdStat fd = none ↔ w.fdStat fd = none := by
  rw [fdStat_eq_none_iff, fdStat_eq_none_iff, hhas, isSome_builtinStat hroot]

theorem FirstFree.congr (h : w'.FirstFree start fd)
    (hsame : ∀ fd, w'.fdStat fd = none ↔ w.fdStat fd = none) : w.FirstFree start fd :=
  ⟨(hsame fd).1 h.free, h.le, fun fd' hle hfree => h.least fd' hle ((hsame fd').2 hfree)⟩

/-- A free number that arrives at the imports as it is. -/
structure FreeI32 (w : World) (fd : Int) : Prop where
  first : firstFileFd ≤ fd
  lt : fd < 2 ^ 31
  free : w.fdStat fd = none

theorem FirstFree.lt_iff (h : w.FirstFree firstFileFd fd) : fd < 2 ^ 31 ↔ ∃ fd', w.FreeI32 fd' := by
  constructor
  · intro hlt
    exact ⟨fd, h.le, hlt, h.free⟩
  · rintro ⟨fd', hfirst, hlt, hfree⟩
    exact (h.least fd' hfirst hfree).trans_lt hlt

end

/-! ### Imports that open descriptors -/

end World

/-- Store words one after the other. -/
def Memory.storeWords (mem : Memory) : List (Int × ℕ) → Option Memory
  | [] => some mem
  | word :: rest => (mem.writeU32 word.1 word.2).bind fun mem' => mem'.storeWords rest

/-- An import that opens descriptors, with the addresses where the guest wants their numbers. -/
inductive Opening
  | pathOpen (fd : Int) (dirflags : Flags) (path : Text) (oflags : Flags)
      (rightsBase rightsInheriting : Rights) (fdflags : Flags) (openedFdPtr : Int)
  | pathOpen2 (fd : Int) (dirflags : Flags) (path : Text) (oflags : Flags)
      (rightsBase rightsInheriting : Rights) (fdflags fdFlagsExt : Flags) (openedFdPtr : Int)
  | fdDup (fd retFdPtr : Int)
  | fdPipe (readFdPtr writeFdPtr : Int)

namespace Opening

/-- The import of an opening. -/
def call (mem : Memory) : Opening → Call
  | .pathOpen fd dirflags path oflags rightsBase rightsInheriting fdflags _ =>
      .pathOpen fd dirflags path oflags rightsBase rightsInheriting fdflags
  | .pathOpen2 fd dirflags path oflags rightsBase rightsInheriting fdflags fdFlagsExt _ =>
      .pathOpen2 fd dirflags path oflags rightsBase rightsInheriting fdflags fdFlagsExt
  | .fdDup fd retFdPtr => .fdDup mem fd retFdPtr
  | .fdPipe readFdPtr writeFdPtr => .fdPipe mem readFdPtr writeFdPtr

/-- Where the new numbers are written. -/
def pointers : Opening → List Int
  | .pathOpen _ _ _ _ _ _ _ openedFdPtr => [openedFdPtr]
  | .pathOpen2 _ _ _ _ _ _ _ _ openedFdPtr => [openedFdPtr]
  | .fdDup _ retFdPtr => [retFdPtr]
  | .fdPipe readFdPtr writeFdPtr => [readFdPtr, writeFdPtr]

end Opening

namespace World

/-- `path_open` stores the number of the descriptor it has opened. -/
def storeOpenedFd (mem : Memory) (openedFdPtr : Int) : OpenResult → FdResult
  | (w', .ok openedFd) => (w', mem.finishU32 openedFdPtr openedFd.toNat (.ok ()))
  | (w', .error errno) => (w', mem, .error (.errno errno))

/-- The import with its memory. -/
def opening (w : World) (mem : Memory) : Opening → FdResult
  | .pathOpen fd dirflags path oflags rightsBase rightsInheriting fdflags openedFdPtr =>
      storeOpenedFd mem openedFdPtr
        (w.pathOpen fd dirflags path oflags rightsBase rightsInheriting fdflags)
  | .pathOpen2 fd dirflags path oflags rightsBase rightsInheriting fdflags fdFlagsExt openedFdPtr =>
      storeOpenedFd mem openedFdPtr
        (w.pathOpen2 fd dirflags path oflags rightsBase rightsInheriting fdflags fdFlagsExt)
  | .fdDup fd retFdPtr => w.fdDup mem fd retFdPtr
  | .fdPipe readFdPtr writeFdPtr => w.fdPipe mem readFdPtr writeFdPtr

theorem fst_storeOpenedFd (mem : Memory) (openedFdPtr : Int) (result : OpenResult) :
    (storeOpenedFd mem openedFdPtr result).1 = result.1 := by
  obtain ⟨w', openedFd | errno⟩ := result <;> rfl

/-- It is the call that a run takes. -/
theorem fst_opening (w : World) (mem : Memory) (o : Opening) :
    (w.opening mem o).1 = w.call (o.call mem) := by
  cases o with
  | pathOpen | pathOpen2 => exact fst_storeOpenedFd ..
  | fdDup | fdPipe => rfl

/-- The descriptors that a call opened, by their numbers. -/
structure Opened (w w' : World) (fds : List Int) : Prop where
  free : ∀ fd ∈ fds, w.fdStat fd = none
  first : ∀ fd ∈ fds, firstFileFd ≤ fd
  nodup : fds.Nodup
  has : ∀ fd, w'.runtime.openFiles.has fd = true ↔ fd ∈ fds ∨ w.runtime.openFiles.has fd = true
  root : w'.runtime.packageRootFd = w.runtime.packageRootFd

/-- The descriptors that an import opens have numbers that arrive as they are. -/
def Addresses (w : World) : Call → Prop
  | .pathOpen .. => w.runtime.nextFileFd < 2 ^ 31
  | .pathOpen2 .. => w.runtime.nextFileFd < 2 ^ 31
  | .fdDup .. => ∃ fd, w.FreeI32 fd
  | .fdPipe .. => ∃ fd fd', fd < fd' ∧ w.FreeI32 fd ∧ w.FreeI32 fd'
  | _ => True

/-- What a successful import did: the descriptors it opened, and where it stored their numbers. -/
structure OpensNumbers (w : World) (mem : Memory) (o : Opening) (fds : List Int) : Prop where
  opened : Opened w (w.opening mem o).1 fds
  length : fds.length = o.pointers.length
  stored : mem.storeWords (o.pointers.zip (fds.map Int.toNat)) = some (w.opening mem o).2.1
  addresses : (∀ fd ∈ fds, fd < 2 ^ 31) ↔ w.Addresses (o.call mem)

variable {mem : Memory} {w w' : World} {fd ptr : Int} {o : Opening}

theorem storeWords_of_finishU32 {value : ℕ} (h : (mem.finishU32 ptr value (.ok ())).2 = .ok ()) :
    mem.storeWords [(ptr, value)] = some (mem.finishU32 ptr value (.ok ())).1 := by
  unfold Memory.finishU32 at h ⊢
  cases hwrite : mem.writeU32 ptr value with
  | none =>
    rw [hwrite] at h
    cases h
  | some =>
    rw [Memory.storeWords, hwrite]
    rfl

/-- The number behind all others is free. -/
theorem fdStat_nextFileFd (hfresh : Fresh w.runtime)
    (hroot : ∀ fd, w.runtime.packageRootFd = some fd → fd < w.runtime.nextFileFd) :
    w.fdStat w.runtime.nextFileFd = none := by
  rw [← Option.not_isSome_iff_eq_none, w.busy_iff hfresh.first, OrdMap.mem_keys, not_or]
  constructor
  · intro hhas
    obtain ⟨file, hfile⟩ := (has_iff _ _).1 hhas
    exact absurd (hfresh.lt _ _ hfile) (lt_irrefl _)
  · intro hsome
    exact absurd (hroot _ hsome.symm) (lt_irrefl _)

/-- A table with one more number. -/
theorem Opened.of_set {file : OpenFile}
    (hset : w'.runtime.openFiles = w.runtime.openFiles.set fd file) (hfree : w.fdStat fd = none)
    (hfirst : firstFileFd ≤ fd) (hroot : w'.runtime.packageRootFd = w.runtime.packageRootFd) :
    Opened w w' [fd] where
  free fd' h := mem_singleton.1 h ▸ hfree
  first fd' h := mem_singleton.1 h ▸ hfirst
  nodup := nodup_singleton fd
  has fd' := by rw [hset, has_set, Bool.or_eq_true, decide_eq_true_eq, mem_singleton]
  root := hroot

/-- Counting, copying and offsets do not touch the table. -/
theorem runtime_duplicateOpenFileForFd (w : World) (fd : Int) :
    (w.duplicateOpenFileForFd fd).1.runtime = w.runtime := by
  unfold duplicateOpenFileForFd
  repeat' split
  all_goals rfl

/-- What `fd_dup` opens: the first free number. -/
theorem opensNumbers_fdDup {retFdPtr : Int}
    (hok : (w.opening mem (.fdDup fd retFdPtr)).2.2 = .ok ()) :
    ∃ fds, w.OpensNumbers mem (.fdDup fd retFdPtr) fds := by
  have hruntime := w.runtime_duplicateOpenFileForFd fd
  change (w.duplicateFd mem fd firstFileFd 0 retFdPtr).2.2 = .ok () at hok
  cases hdup : w.duplicateOpenFileForFd fd with
  | mk w' source =>
    rw [hdup] at hruntime
    have hruntime : w'.runtime = w.runtime := hruntime
    have hcall : w.opening mem (.fdDup fd retFdPtr) = w.duplicateFd mem fd firstFileFd 0 retFdPtr :=
      rfl
    unfold duplicateFd at hok hcall
    rw [hdup] at hok hcall
    split at hok
    · cases hok
    next hwrite =>
      rw [if_neg hwrite] at hcall
      cases source with
      | none => cases hok
      | some file =>
        have hfirst : w.FirstFree firstFileFd (w'.allocateDynamicFileFd firstFileFd).2 :=
          (w'.firstFree_allocate firstFileFd).congr
            (fdStat_eq_none_congr (fun _ => by rw [hruntime]) (by rw [hruntime]))
        refine ⟨[(w'.allocateDynamicFileFd firstFileFd).2], ?_, rfl, ?_, ?_⟩
        · rw [hcall]
          refine @Opened.of_set _ _ _ file ?_ hfirst.free hfirst.le ?_
          · change w'.runtime.openFiles.set _ file = _
            rw [hruntime]
          · change w'.runtime.packageRootFd = _
            rw [hruntime]
        · rw [hcall]
          exact storeWords_of_finishU32 hok
        · rw [forall_mem_singleton]
          exact hfirst.lt_iff

/-- What `fd_pipe` opens: the first free number, and the first free one behind it. -/
theorem opensNumbers_fdPipe {readFdPtr writeFdPtr : Int}
    (hok : (w.opening mem (.fdPipe readFdPtr writeFdPtr)).2.2 = .ok ()) :
    ∃ fds, w.OpensNumbers mem (.fdPipe readFdPtr writeFdPtr) fds := by
  have hcall :
      w.opening mem (.fdPipe readFdPtr writeFdPtr) = w.fdPipe mem readFdPtr writeFdPtr := rfl
  rw [hcall] at hok
  unfold fdPipe at hok hcall
  split at hok
  · cases hok
  next hwrite =>
    rw [if_neg hwrite] at hcall
    dsimp only at hok hcall
    set a := (w.allocPipe.allocateDynamicFileFd firstFileFd).2 with ha
    set w₁ := (w.allocPipe.allocateDynamicFileFd firstFileFd).1.putOpenFile a
      (pipeEnd .read w.host.pipes.next) with hw₁
    set b := (w₁.allocateDynamicFileFd (a + 1)).2 with hb
    have hread : w.FirstFree firstFileFd a :=
      (w.allocPipe.firstFree_allocate firstFileFd).congr (fdStat_eq_none_congr (fun _ => rfl) rfl)
    have hafirst := hread.le
    have hwriteEnd := w₁.firstFree_allocate (a + 1)
    rw [← hb] at hwriteEnd
    -- in the table with the read end everything else is as free as before
    have htable : ∀ fd, w₁.fdStat fd = none ↔ fd ≠ a ∧ w.fdStat fd = none := by
      intro fd
      have hhas : w₁.runtime.openFiles.has fd =
          (decide (fd = a) || w.runtime.openFiles.has fd) := has_set _ _ _ _
      rw [fdStat_eq_none_iff, fdStat_eq_none_iff, hhas, Bool.or_eq_false_iff,
        decide_eq_false_iff_not, and_assoc]
      exact Iff.rfl
    obtain ⟨hne, hfreeb⟩ := (htable b).1 hwriteEnd.free
    have hbfirst : firstFileFd ≤ b := (le_max_left _ _).trans hwriteEnd.le
    refine ⟨[a, b], ⟨?_, ?_, ?_, ?_, ?_⟩, rfl, ?_, ?_⟩
    · exact forall_mem_cons.2 ⟨hread.free, forall_mem_singleton.2 hfreeb⟩
    · exact forall_mem_cons.2 ⟨hafirst, forall_mem_singleton.2 hbfirst⟩
    · simp [hne.symm]
    · intro fd
      rw [hcall]
      change ((w.runtime.openFiles.set a (pipeEnd .read w.host.pipes.next)).set b
        (pipeEnd .write w.host.pipes.next)).has fd = true ↔ _
      simp only [has_set, Bool.or_eq_true, decide_eq_true_eq, mem_cons, not_mem_nil, or_false]
      tauto
    · rw [hcall]
      rfl
    · rw [hcall]
      cases hstore : mem.writeU32 readFdPtr a.toNat with
      | none =>
        rw [hstore] at hok
        cases hok
      | some =>
        rw [hstore] at hok
        change (mem.writeU32 readFdPtr a.toNat).bind _ = _
        rw [hstore]
        exact storeWords_of_finishU32 hok
    · have hnext : a < 2 ^ 31 → toUint32 (a + 1) = a + 1 := fun hlt => by
        unfold firstFileFd at hafirst
        unfold toUint32
        omega
      constructor
      · intro hlt
        have halt := hlt a mem_cons_self
        have hle := (le_max_right _ _).trans hwriteEnd.le
        rw [hnext halt] at hle
        exact ⟨a, b, by omega, ⟨hafirst, halt, hread.free⟩,
          ⟨hbfirst, hlt b (by simp), hfreeb⟩⟩
      · rintro ⟨c, d, hcd, hc, hd⟩
        have hac := hread.least c hc.first hc.free
        have hdlt := hd.lt
        have hbd : b ≤ d := by
          refine hwriteEnd.least d ?_ ((htable d).2 ⟨by omega, hd.free⟩)
          rw [hnext (by omega)]
          exact max_le hd.first (by omega)
        intro fd hfd
        rcases mem_cons.1 hfd with rfl | hfd
        · omega
        · rw [mem_singleton.1 hfd]
          omega

/-- What `path_open` opens: the number behind all others. -/
theorem opensNumbers_of_takesNext {result : OpenResult}
    (hopening : w.opening mem o = storeOpenedFd mem ptr result) (hpointers : o.pointers = [ptr])
    (haddresses : w.Addresses (o.call mem) ↔ w.runtime.nextFileFd < 2 ^ 31)
    (hresult : result = (w', .ok w.runtime.nextFileFd))
    (hopened : Opened w w' [w.runtime.nextFileFd]) (hok : (w.opening mem o).2.2 = .ok ()) :
    w.OpensNumbers mem o [w.runtime.nextFileFd] := by
  subst hresult
  rw [hopening] at hok
  refine ⟨?_, by rw [hpointers]; rfl, ?_, ?_⟩
  · rw [hopening]
    exact hopened
  · rw [hopening, hpointers]
    exact storeWords_of_finishU32 hok
  · rw [forall_mem_singleton, haddresses]

/-- A descriptor that was opened behind all others. -/
theorem opened_pushOpenFile {w₁ : World} (h : SameNumbers w w₁)
    (hfree : w.fdStat w.runtime.nextFileFd = none) (hfirst : firstFileFd ≤ w.runtime.nextFileFd)
    (file : OpenFile) : Opened w (w₁.pushOpenFile file) [w.runtime.nextFileFd] where
  free fd hfd := mem_singleton.1 hfd ▸ hfree
  first fd hfd := mem_singleton.1 hfd ▸ hfirst
  nodup := nodup_singleton _
  has fd := by
    change (w₁.runtime.openFiles.set w₁.runtime.nextFileFd file).has fd = true ↔ _
    rw [has_set, h.has, h.mark, Bool.or_eq_true, decide_eq_true_eq, mem_singleton]
  root := h.root

/-- `path_open2` also sets the flags of the number that it reads back. -/
theorem pathOpen2_cases (w : World) (fd : Int) (dirflags : Flags) (path : Text) (oflags : Flags)
    (rightsBase rightsInheriting : Rights) (fdflags fdFlagsExt : Flags) :
    (∃ errno, w.pathOpen2 fd dirflags path oflags rightsBase rightsInheriting fdflags fdFlagsExt =
      (w, .error errno)) ∨
    ∃ w₁ file flags, SameNumbers w w₁ ∧
      (flags = w.runtime.fdFlagsExt ∨
        flags = w.runtime.fdFlagsExt.set (toUint32 w.runtime.nextFileFd) fdFlagsExt) ∧
      w.pathOpen2 fd dirflags path oflags rightsBase rightsInheriting fdflags fdFlagsExt =
        ((w₁.pushOpenFile file).setFdFlagsExt flags, .ok w.runtime.nextFileFd) := by
  unfold pathOpen2
  split
  · exact .inl ⟨_, rfl⟩
  rcases w.takesNext_pathOpen fd dirflags path oflags rightsBase rightsInheriting fdflags with
    ⟨errno, herror⟩ | ⟨w₁, file, hsame, hresult⟩
  · rw [herror]
    exact .inl ⟨errno, rfl⟩
  · rw [hresult]
    dsimp only
    split
    · refine .inr ⟨w₁, file, w.runtime.fdFlagsExt, hsame, .inl rfl, ?_⟩
      rw [← hsame.flags]
      rfl
    · refine .inr ⟨w₁, file, _, hsame, .inr rfl, ?_⟩
      rw [← hsame.flags]
      rfl

/-- Every successful import opens new descriptors and stores their numbers. -/
theorem exists_opensNumbers (hfresh : Fresh w.runtime)
    (hroot : ∀ fd, w.runtime.packageRootFd = some fd → fd < w.runtime.nextFileFd)
    (hok : (w.opening mem o).2.2 = .ok ()) : ∃ fds, w.OpensNumbers mem o fds := by
  have hfree := fdStat_nextFileFd hfresh hroot
  cases o with
  | fdDup => exact opensNumbers_fdDup hok
  | fdPipe => exact opensNumbers_fdPipe hok
  | pathOpen fd dirflags path oflags rightsBase rightsInheriting fdflags openedFdPtr =>
    rcases w.takesNext_pathOpen fd dirflags path oflags rightsBase rightsInheriting fdflags with
      ⟨errno, herror⟩ | ⟨w₁, file, hsame, hresult⟩
    · rw [opening, herror] at hok
      cases hok
    · exact ⟨_, opensNumbers_of_takesNext rfl rfl Iff.rfl hresult
        (opened_pushOpenFile hsame hfree hfresh.first file) hok⟩
  | pathOpen2 fd dirflags path oflags rightsBase rightsInheriting fdflags fdFlagsExt openedFdPtr =>
    rcases w.pathOpen2_cases fd dirflags path oflags rightsBase rightsInheriting fdflags fdFlagsExt
      with ⟨errno, herror⟩ | ⟨w₁, file, flags, hsame, -, hresult⟩
    · rw [opening, herror] at hok
      cases hok
    · have hopened := opened_pushOpenFile hsame hfree hfresh.first file
      exact ⟨_, opensNumbers_of_takesNext rfl rfl Iff.rfl hresult
        ⟨hopened.free, hopened.first, hopened.nodup, hopened.has, hopened.root⟩ hok⟩

/-! ### What the guest finds -/

theorem ValidTarget.nonneg (h : ValidTarget fd) : 0 ≤ fd := by
  rcases h with h | h
  · have h : firstFileFd ≤ fd := of_decide_eq_true h
    exact le_trans (by decide) h
  · simp only [isStdioFd, Bool.or_eq_true, decide_eq_true_eq] at h
    rcases h with (rfl | rfl) | rfl <;> decide

/-- A successful import stores numbers that denoted nothing before and are the new descriptors, also
when the guest passes them back. -/
def HandsOut (w : World) (mem : Memory) (o : Opening) : Prop :=
  ∃ numbers : List ℕ, numbers.length = o.pointers.length ∧ numbers.Nodup ∧
    mem.storeWords (o.pointers.zip numbers) = some (w.opening mem o).2.1 ∧
    ∀ n ∈ numbers, n < 2 ^ 32 ∧ w.fdStat n = none ∧
      ∃ file, (w.opening mem o).1.openFile n = some file ∧
        (w.opening mem o).1.ActsOn (toI32 n) file

/-- The numbers are good exactly if they do not arrive negative. -/
theorem handsOut_iff (hfresh : Fresh w.runtime)
    (hroot : ∀ fd, w.runtime.packageRootFd = some fd → fd < w.runtime.nextFileFd)
    (hnumbered : (w.opening mem o).1.Numbered) (hok : (w.opening mem o).2.2 = .ok ()) :
    w.HandsOut mem o ↔ w.Addresses (o.call mem) := by
  obtain ⟨fds, hopened, hlength, hstored, haddresses⟩ := exists_opensNumbers hfresh hroot hok
  rw [← haddresses]
  constructor
  · rintro ⟨numbers, hcount, hnodup, -, hnumbers⟩
    -- every number the guest can use is one of the new ones, so they all are
    have hsmall : ∀ n ∈ numbers, n < 2 ^ 31 := by
      intro n hn
      obtain ⟨hlt, -, file, -, hacts⟩ := hnumbers n hn
      by_contra hlarge
      have hneg := toI32_neg (Nat.not_lt.1 hlarge) hlt
      exact absurd (hnumbered _ _ hacts.openFile).nonneg (Int.not_le.2 hneg)
    have hsub : numbers.map (fun n : ℕ => (n : Int)) ⊆ fds := by
      intro fd hfd
      obtain ⟨n, hn, rfl⟩ := mem_map.1 hfd
      obtain ⟨-, hfree, file, hfile, -⟩ := hnumbers n hn
      refine ((hopened.has n).1 (has_of_get hfile)).resolve_right fun hold => ?_
      rw [(fdStat_eq_none_iff.1 hfree).1] at hold
      cases hold
    have hperm :=
      (List.Nodup.map (fun _ _ => Int.ofNat.inj) hnodup).subperm hsub |>.perm_of_length_le
      (by rw [length_map, hcount, hlength])
    intro fd hfd
    obtain ⟨n, hn, rfl⟩ := mem_map.1 (hperm.mem_iff.2 hfd)
    exact Int.ofNat_lt.2 (hsmall n hn)
  · intro hlt
    refine ⟨fds.map Int.toNat, by rw [length_map, hlength], ?_, hstored, fun n hn => ?_⟩
    · refine List.Nodup.map_on (fun fd hfd fd' hfd' heq => ?_) hopened.nodup
      have h := hopened.first fd hfd
      have h' := hopened.first fd' hfd'
      unfold firstFileFd at h h'
      omega
    · obtain ⟨fd, hfd, rfl⟩ := mem_map.1 hn
      have hfirst := hopened.first fd hfd
      have hnat : (fd.toNat : Int) = fd :=
        Int.toNat_of_nonneg (by unfold firstFileFd at hfirst; omega)
      have hlt := hlt fd hfd
      have hfree := hopened.free fd hfd
      obtain ⟨file, hfile⟩ := (has_iff _ _).1 ((hopened.has fd).2 (.inl hfd))
      rw [toI32_of_lt (by omega), hnat]
      refine ⟨by omega, hfree, file, hfile, actsOn_of_ne hfile (validTarget_of_le hfirst) ?_⟩
      rw [hopened.root]
      intro hroot
      have hbusy := (w.busy_iff hfirst).2 (.inr hroot)
      rw [hfree] at hbusy
      cases hbusy

end World

end WasmHost

import WasmHost.Wasi.Boot
import WasmHost.Wasi.ChildSnapshot

/-!
# Reference counts of pipes

The reference counts of every pipe are exact in every reachable state of a run with forks: they
are the numbers of descriptors of its two ends, summed over the descriptor tables of the live
runtimes (`System.counts_exact`). The step argument is a balance: every effect changes the count
of an end and the number of its descriptors by the same amount (`World.Balanced`).

From the exact counts follows what the guest sees of them: when a read reports the end of the
stream and when a write reports that nobody reads.
-/

namespace WasmHost

open OrdMap Heap List

/-- The number of descriptors of an end of a pipe. -/
def Runtime.endCount (r : Runtime) (direction : Direction) (pipe : ℕ) : ℕ :=
  r.openFiles.countVals fun file => file.isEnd direction pipe

/-- The reference count of an end of a pipe. -/
def Host.ends (host : Host) (direction : Direction) (pipe : ℕ) : ℕ :=
  (host.pipes.get pipe).ends direction

/-- Whether a descriptor is the given end, as a number. -/
def OpenFile.endNat (file : OpenFile) (direction : Direction) (pipe : ℕ) : ℕ :=
  (file.isEnd direction pipe).toNat

namespace Host

variable (host : Host)

variable (file : OpenFile) (files : List OpenFile) (direction : Direction)

theorem ends_retainOpenFile (pipe : ℕ) :
    (host.retainOpenFile file).ends direction pipe =
      host.ends direction pipe + file.endNat direction pipe := by
  unfold retainOpenFile ends OpenFile.endNat OpenFile.isEnd
  cases hkind : file.kind with
  | pipe d p =>
    by_cases hp : pipe = p
    · subst hp
      cases d <;> cases direction <;> simp [Pipe.addEnd, Pipe.ends]
    · simp [get_modify_ne _ _ hp, Ne.symm hp]
  | _ => simp

theorem ends_closeOpenFile (pipe : ℕ) :
    (host.closeOpenFile file).ends direction pipe =
      host.ends direction pipe - file.endNat direction pipe := by
  unfold closeOpenFile ends OpenFile.endNat OpenFile.isEnd
  cases hkind : file.kind with
  | pipe d p =>
    by_cases hp : pipe = p
    · subst hp
      cases d <;> cases direction <;> simp [Pipe.removeEnd, Pipe.ends]
    · simp [get_modify_ne _ _ hp, Ne.symm hp]
  | _ => simp

theorem next_retainOpenFile : (host.retainOpenFile file).pipes.next = host.pipes.next := by
  unfold retainOpenFile
  split <;> rfl

theorem next_closeOpenFile : (host.closeOpenFile file).pipes.next = host.pipes.next := by
  unfold closeOpenFile
  split <;> rfl

/-- Retaining every descriptor of a list adds the number of those of an end. -/
theorem ends_foldl_retainOpenFile (pipe : ℕ) :
    (files.foldl retainOpenFile host).ends direction pipe =
      host.ends direction pipe + files.countP fun file => file.isEnd direction pipe := by
  induction files generalizing host with
  | nil => rfl
  | cons file files ih =>
    rw [foldl_cons, ih, ends_retainOpenFile, countP_cons, OpenFile.endNat]
    cases file.isEnd direction pipe with
    | false => simp
    | true =>
      simp only [Bool.toNat_true, if_true]
      omega

/-- Closing every descriptor of a list subtracts the number of those of an end. -/
theorem ends_foldl_closeOpenFile (pipe : ℕ) :
    (files.foldl closeOpenFile host).ends direction pipe =
      host.ends direction pipe - files.countP fun file => file.isEnd direction pipe := by
  induction files generalizing host with
  | nil => rfl
  | cons file files ih =>
    rw [foldl_cons, ih, ends_closeOpenFile, countP_cons, OpenFile.endNat]
    cases file.isEnd direction pipe with
    | false => simp
    | true =>
      simp only [Bool.toNat_true, if_true]
      omega

theorem next_foldl_retainOpenFile :
    (files.foldl retainOpenFile host).pipes.next = host.pipes.next := by
  induction files generalizing host with
  | nil => rfl
  | cons file files ih => rw [foldl_cons, ih, next_retainOpenFile]

theorem next_foldl_closeOpenFile :
    (files.foldl closeOpenFile host).pipes.next = host.pipes.next := by
  induction files generalizing host with
  | nil => rfl
  | cons file files ih => rw [foldl_cons, ih, next_closeOpenFile]

end Host

theorem Runtime.endCount_eq_countP (r : Runtime) (direction : Direction) (pipe : ℕ) :
    r.endCount direction pipe =
      r.openFiles.values.countP fun file => file.isEnd direction pipe := by
  simp [endCount, OrdMap.countVals, OrdMap.values, countP_map, Function.comp_def]

namespace World

/-- The numbers in the table are below the next free one. -/
structure Fresh (r : Runtime) : Prop where
  lt : ∀ fd file, r.openFiles.get fd = some file → fd < r.nextFileFd
  first : firstFileFd ≤ r.nextFileFd

/-- The conditions under which the effects keep the counts. -/
structure Sound (w : World) : Prop where
  fresh : Fresh w.runtime
  covered : ∀ direction pipe, w.runtime.endCount direction pipe ≤ w.host.ends direction pipe
  allocated : ∀ direction pipe, w.host.pipes.next ≤ pipe → w.host.ends direction pipe = 0

/-- The count of every end changes as the number of its descriptors in the table. -/
def Balanced (w w' : World) : Prop :=
  ∀ direction pipe, w'.host.ends direction pipe + w.runtime.endCount direction pipe =
    w.host.ends direction pipe + w'.runtime.endCount direction pipe

/-- An effect that keeps the conditions and the balance. -/
def KeepsCounts (w w' : World) : Prop := w.Sound → w'.Sound ∧ Balanced w w'

theorem KeepsCounts.refl (w : World) : KeepsCounts w w := fun h => ⟨h, fun _ _ => rfl⟩

variable {w w' : World} {fd target : Int} {file : OpenFile} {pipe : ℕ}

theorem KeepsCounts.trans {w'' : World} (h : KeepsCounts w w') (h' : KeepsCounts w' w'') :
    KeepsCounts w w'' := by
  intro hs
  obtain ⟨hs', hb⟩ := h hs
  obtain ⟨hs'', hb'⟩ := h' hs'
  refine ⟨hs'', fun direction pipe => ?_⟩
  have := hb direction pipe
  have := hb' direction pipe
  omega

/-- A balanced effect keeps every end covered. -/
theorem Sound.of_balanced (h : w.Sound) (hb : Balanced w w') (hfresh : Fresh w'.runtime)
    (hnext : ∀ direction pipe, w'.host.pipes.next ≤ pipe → w'.host.ends direction pipe = 0) :
    w'.Sound := by
  refine ⟨hfresh, fun direction pipe => ?_, hnext⟩
  have := hb direction pipe
  have := h.covered direction pipe
  omega

/-- An effect that changes neither a count nor what the table has of any end. -/
theorem keepsCounts_of_eq (hends : ∀ d p, w'.host.ends d p = w.host.ends d p)
    (hnext : w'.host.pipes.next = w.host.pipes.next)
    (hcount : ∀ d p, w'.runtime.endCount d p = w.runtime.endCount d p)
    (hkeys : ∀ fd file, w'.runtime.openFiles.get fd = some file →
      w.runtime.openFiles.has fd = true ∨ fd < w'.runtime.nextFileFd)
    (hfd : w.runtime.nextFileFd ≤ w'.runtime.nextFileFd) : KeepsCounts w w' := by
  intro hs
  have hb : Balanced w w' := fun d p => by rw [hends, hcount]
  refine ⟨hs.of_balanced hb ⟨fun fd file hfile => ?_, hs.fresh.first.trans hfd⟩
    fun d p hp => ?_, hb⟩
  · rcases hkeys fd file hfile with hhas | hlt
    · obtain ⟨f, hf⟩ := (w.runtime.openFiles.has_iff fd).1 hhas
      exact (hs.fresh.lt fd f hf).trans_le hfd
    · exact hlt
  · rw [hends]
    exact hs.allocated d p (hnext ▸ hp)

section Table

variable (w : World) {old : OpenFile}

variable {fd : Int} {r : Runtime}

theorem Sound.openFile_nextFileFd {w : World} (hs : w.Sound) (hfd : w.runtime.nextFileFd ≤ fd) :
    w.runtime.openFiles.get fd = none := by
  cases hf : w.runtime.openFiles.get fd with
  | none => rfl
  | some file => exact absurd (hs.fresh.lt fd file hf) (not_lt.2 hfd)

/-- The table after one more descriptor. -/
theorem endCount_set_free (file : OpenFile) (hfree : r.openFiles.get fd = none) (d : Direction)
    (p : ℕ) :
    (r.openFiles.set fd file).countVals (fun f => f.isEnd d p) =
      r.endCount d p + file.endNat d p :=
  countVals_set_of_get_none _ _ file hfree

theorem endCount_set_replacing (file : OpenFile) (hold : r.openFiles.get fd = some old)
    (d : Direction) (p : ℕ) :
    (r.openFiles.set fd file).countVals (fun f => f.isEnd d p) + old.endNat d p =
      r.endCount d p + file.endNat d p :=
  countVals_set_of_get_some _ _ file hold

theorem endCount_delete (hold : r.openFiles.get fd = some old) (d : Direction) (p : ℕ) :
    (r.openFiles.delete fd).countVals (fun f => f.isEnd d p) + old.endNat d p =
      r.endCount d p :=
  countVals_delete _ _ hold

end Table

/-! ### The plain effects -/

theorem keepsCounts_closed (hfile : w.openFile fd = some file) :
    KeepsCounts w ((w.closeOpenFile file).dropOpenFile fd) := by
  intro hs
  have hb : Balanced w ((w.closeOpenFile file).dropOpenFile fd) := by
    intro d p
    have hends : ((w.closeOpenFile file).dropOpenFile fd).host.ends d p =
        w.host.ends d p - file.endNat d p := w.host.ends_closeOpenFile file d p
    have hcount : ((w.closeOpenFile file).dropOpenFile fd).runtime.endCount d p +
        file.endNat d p = w.runtime.endCount d p := endCount_delete hfile d p
    have := hs.covered d p
    omega
  refine ⟨hs.of_balanced hb ⟨fun fd' file' h => ?_, hs.fresh.first⟩ fun d p hp => ?_, hb⟩
  · have h' : (w.runtime.openFiles.delete fd).get fd' = some file' := h
    rw [get_delete] at h'
    split at h'
    · cases h'
    · exact hs.fresh.lt fd' file' h'
  · have hnext : w.host.pipes.next ≤ p := by rwa [← w.host.next_closeOpenFile file]
    have hends : ((w.closeOpenFile file).dropOpenFile fd).host.ends d p =
        w.host.ends d p - file.endNat d p := w.host.ends_closeOpenFile file d p
    rw [hends, hs.allocated d p hnext, Nat.zero_sub]

/-- What a descriptor that is about to be replaced counts for. -/
def replacedNat (w : World) (target : Int) (d : Direction) (p : ℕ) : ℕ :=
  match w.openFile target with
  | some replaced => replaced.endNat d p
  | none => 0

theorem ends_closeReplaced (w : World) (target : Int) (d : Direction) (p : ℕ) :
    (w.closeReplaced target).host.ends d p = w.host.ends d p - w.replacedNat target d p := by
  cases h : w.openFile target with
  | none => simp only [closeReplaced, replacedNat, h, setHost, Nat.sub_zero]
  | some replaced =>
    simp only [closeReplaced, replacedNat, h, setHost]
    exact w.host.ends_closeOpenFile replaced d p

theorem next_closeReplaced (w : World) (target : Int) :
    (w.closeReplaced target).host.pipes.next = w.host.pipes.next := by
  unfold closeReplaced
  split
  next replaced h => exact w.host.next_closeOpenFile replaced
  next h => rfl

theorem replacedNat_le_endCount (w : World) (target : Int) (d : Direction) (p : ℕ) :
    w.replacedNat target d p ≤ w.runtime.endCount d p := by
  unfold replacedNat
  split
  next replaced h =>
    have := endCount_delete h d p
    omega
  next h => exact Nat.zero_le _

/-- A descriptor put at a number takes the place of the one that was there. -/
theorem endCount_set {r : Runtime} (file : OpenFile) (target : Int) (d : Direction) (p : ℕ) :
    (r.openFiles.set target file).countVals (fun f => f.isEnd d p) +
        (match r.openFiles.get target with
          | some replaced => replaced.endNat d p
          | none => 0) =
      r.endCount d p + file.endNat d p := by
  cases h : r.openFiles.get target with
  | none => exact endCount_set_free file h d p
  | some => exact endCount_set_replacing file h d p

theorem fresh_reserveFd (htarget : ValidTarget target)
    (hfirst : firstFileFd ≤ w.runtime.nextFileFd)
    (h : ∀ fd file, w.runtime.openFiles.get fd = some file →
      fd = target ∨ fd < w.runtime.nextFileFd) : Fresh (w.reserveFd target).runtime := by
  have hstd : isStdioFd target = true → target < firstFileFd := by
    simp only [isStdioFd, Bool.or_eq_true, decide_eq_true_eq]
    rintro ((rfl | rfl) | rfl) <;> decide
  have hnext : (w.reserveFd target).runtime.nextFileFd =
      if isDynamicFileFdNumber target = true ∧ w.runtime.nextFileFd ≤ target then target + 1
      else w.runtime.nextFileFd := rfl
  refine ⟨fun fd file hfile => ?_, ?_⟩
  · rw [hnext]
    rcases h fd file hfile with rfl | hlt
    · split
      · omega
      next hno =>
        rcases htarget with hd | hd
        · exact not_le.1 fun hle => hno ⟨hd, hle⟩
        · exact (hstd hd).trans_le hfirst
    · split <;> omega
  · rw [hnext]
    split <;> omega

theorem keepsCounts_moved (hfile : w.openFile fd = some file) (htarget : ValidTarget target)
    (hne : fd ≠ target) : KeepsCounts w (w.moveDescriptor fd target file) := by
  intro hs
  have hget : (w.runtime.openFiles.delete fd).get target = w.runtime.openFiles.get target :=
    get_delete_ne _ (Ne.symm hne)
  have hends : ∀ d p, (w.moveDescriptor fd target file).host.ends d p =
      w.host.ends d p - w.replacedNat target d p := fun d p => w.ends_closeReplaced target d p
  have hb : Balanced w (w.moveDescriptor fd target file) := by
    intro d p
    have hdelete := endCount_delete hfile d p
    have hset : (w.moveDescriptor fd target file).runtime.endCount d p +
        w.replacedNat target d p =
        (w.runtime.openFiles.delete fd).countVals (fun f => f.isEnd d p) + file.endNat d p := by
      have h := endCount_set (r := { w.runtime with openFiles := w.runtime.openFiles.delete fd })
        file target d p
      simp only [hget] at h
      exact h
    have := hs.covered d p
    have := w.replacedNat_le_endCount target d p
    have := hends d p
    omega
  refine ⟨hs.of_balanced hb (fresh_reserveFd htarget hs.fresh.first fun fd' file' h => ?_)
    fun d p hp => ?_, hb⟩
  · have h' : ((w.runtime.openFiles.delete fd).set target file).get fd' = some file' := h
    rw [get_set] at h'
    split at h'
    next heq => exact .inl heq
    rw [get_delete] at h'
    split at h'
    · cases h'
    · exact .inr (hs.fresh.lt fd' file' h')
  · have hnext : (w.moveDescriptor fd target file).host.pipes.next = w.host.pipes.next :=
      w.next_closeReplaced target
    rw [hends, hs.allocated d p (hnext ▸ hp), Nat.zero_sub]

theorem keepsCounts_duplicated (hfile : ∀ d p, w.host.pipes.next ≤ p → file.endNat d p = 0)
    (htarget : ValidTarget target) : KeepsCounts w (w.placeDuplicate target file) := by
  intro hs
  have hends : ∀ d p, (w.placeDuplicate target file).host.ends d p =
      w.host.ends d p - w.replacedNat target d p + file.endNat d p := by
    intro d p
    rw [← ends_closeReplaced]
    exact (w.closeReplaced target).host.ends_retainOpenFile file d p
  have hb : Balanced w (w.placeDuplicate target file) := by
    intro d p
    have hcount : (w.placeDuplicate target file).runtime.endCount d p +
        w.replacedNat target d p = w.runtime.endCount d p + file.endNat d p :=
      endCount_set file target d p
    have := hs.covered d p
    have := w.replacedNat_le_endCount target d p
    have := hends d p
    omega
  refine ⟨hs.of_balanced hb (fresh_reserveFd htarget hs.fresh.first fun fd' file' h => ?_)
    fun d p hp => ?_, hb⟩
  · have h' : (w.runtime.openFiles.set target file).get fd' = some file' := h
    rw [get_set] at h'
    split at h'
    next heq => exact .inl heq
    · exact .inr (hs.fresh.lt fd' file' h')
  · have hnext : (w.placeDuplicate target file).host.pipes.next = w.host.pipes.next :=
      ((w.closeReplaced target).host.next_retainOpenFile file).trans (w.next_closeReplaced target)
    have hp' : w.host.pipes.next ≤ p := hnext ▸ hp
    rw [hends, hs.allocated d p hp', hfile d p hp', Nat.zero_sub]

theorem keepsCounts_quiet (h : Quiet w w') : KeepsCounts w w' := by
  refine keepsCounts_of_eq (fun d p => ?_) (by rw [h.pipes]) (fun d p => ?_) (fun fd file hf => ?_)
    h.nextFileFd
  · simp only [Host.ends, h.pipes]
  · simp only [Runtime.endCount, h.openFiles]
  · rw [h.openFiles] at hf
    exact .inl (has_of_get hf)

/-- An effect that changes neither a pipe nor the table. -/
theorem keepsCounts_of_frame (hpipes : w'.host.pipes = w.host.pipes)
    (hruntime : w'.runtime = w.runtime) : KeepsCounts w w' := by
  refine keepsCounts_of_eq (fun d p => ?_) (by rw [hpipes]) (fun d p => ?_) (fun fd file hf => ?_)
    (by rw [hruntime])
  · simp only [Host.ends, hpipes]
  · rw [hruntime]
  · rw [hruntime] at hf
    exact .inl (has_of_get hf)

theorem keepsCounts_setPipeBytes (w : World) (pipe : ℕ) (bytes : Bytes) :
    KeepsCounts w (w.setPipeBytes pipe bytes) := by
  refine keepsCounts_of_eq (fun d p => ?_) rfl (fun _ _ => rfl)
    (fun fd file hf => .inl (has_of_get hf)) (le_refl _)
  simp only [Host.ends, setPipeBytes, setHost, Host.modifyPipe, get_modify]
  by_cases hp : p = pipe
  · subst hp
    cases d <;> simp [Pipe.ends]
  · simp [hp]

/-- Replacing a descriptor by one that is an end of the same pipes. -/
theorem keepsCounts_putOpenFile {file' : OpenFile} (hfile : w.openFile fd = some file)
    (hends : ∀ d p, file'.endNat d p = file.endNat d p) :
    KeepsCounts w (w.putOpenFile fd file') := by
  refine keepsCounts_of_eq (fun _ _ => rfl) rfl (fun d p => ?_) (fun fd' f hf => ?_) (le_refl _)
  · have hset := endCount_set_replacing file' hfile d p
    rw [hends, Nat.add_right_cancel_iff] at hset
    exact hset
  · have hget : (w.runtime.openFiles.set fd file').get fd' = some f := hf
    rw [get_set] at hget
    split at hget
    next heq => exact .inl (heq ▸ has_of_get hfile)
    · exact .inl (has_of_get hget)

theorem endNat_withRights (file : OpenFile) (rights inheriting : Rights) (d : Direction) (p : ℕ) :
    (withRights file rights inheriting).endNat d p = file.endNat d p := by
  unfold OpenFile.endNat OpenFile.isEnd withRights
  cases file.kind <;> rfl

theorem Opens.endNat (h : w.Opens file) (d : Direction) (p : ℕ) : file.endNat d p = 0 := by
  cases h <;> rfl

theorem keepsCounts_opened (hfile : ∀ d p, file.endNat d p = 0) :
    KeepsCounts w (w.pushOpenFile file) := by
  intro hs
  have hfree := hs.openFile_nextFileFd (le_refl _)
  have hb : Balanced w (w.pushOpenFile file) := by
    intro d p
    have hset := endCount_set_free file hfree d p
    rw [hfile, Nat.add_zero] at hset
    have hcount : (w.pushOpenFile file).runtime.endCount d p = w.runtime.endCount d p := hset
    rw [hcount]
    rfl
  refine ⟨hs.of_balanced hb ⟨fun fd f hf => ?_, ?_⟩ hs.allocated, hb⟩
  · have hget : (w.runtime.openFiles.set w.runtime.nextFileFd file).get fd = some f := hf
    have hnext : (w.pushOpenFile file).runtime.nextFileFd = w.runtime.nextFileFd + 1 := rfl
    rw [get_set] at hget
    split at hget
    next heq => omega
    have := hs.fresh.lt fd f hget
    omega
  · have hnext : (w.pushOpenFile file).runtime.nextFileFd = w.runtime.nextFileFd + 1 := rfl
    have := hs.fresh.first
    omega

/-- A duplicate counts for no pipe that does not exist yet. -/
theorem Source.endNat (h : w.Source file) (hs : w.Sound) {d : Direction} {p : ℕ}
    (hp : w.host.pipes.next ≤ p) : file.endNat d p = 0 := by
  cases h with
  | openFile hfile =>
    have := endCount_delete hfile d p
    have := hs.covered d p
    have := hs.allocated d p hp
    omega
  | stdio => rfl

/-- Placing a descriptor at an allocated number. -/
theorem fresh_allocated (h : Fresh w.runtime) (minResultFd : Int) (file : OpenFile) :
    let allocated := w.allocateDynamicFileFd minResultFd
    Fresh (allocated.1.putOpenFile allocated.2 file).runtime := by
  intro allocated
  have hnext : (allocated.1.putOpenFile allocated.2 file).runtime.nextFileFd =
      if w.runtime.nextFileFd ≤ allocated.2 then allocated.2 + 1 else w.runtime.nextFileFd := rfl
  refine ⟨fun fd f hf => ?_, ?_⟩
  · have hget : (w.runtime.openFiles.set allocated.2 file).get fd = some f := hf
    rw [get_set] at hget
    rw [hnext]
    split at hget
    next heq => split <;> omega
    have := h.lt fd f hget
    split <;> omega
  · have := h.first
    rw [hnext]
    split <;> omega

theorem keepsCounts_openPipe (w : World) : KeepsCounts w w.openPipe := by
  intro hs
  let pipe := w.host.pipes.next
  let readEnd := w.allocPipe.allocateDynamicFileFd firstFileFd
  let w₁ := readEnd.1.putOpenFile readEnd.2 (pipeEnd .read pipe)
  let writeEnd := w₁.allocateDynamicFileFd (readEnd.2 + 1)
  have hread : ∀ d p, w₁.runtime.endCount d p =
      w.runtime.endCount d p + (pipeEnd .read pipe).endNat d p :=
    endCount_set_free _ (w.allocPipe.openFile_allocateDynamicFileFd firstFileFd)
  have hwrite : ∀ d p, w.openPipe.runtime.endCount d p =
      w₁.runtime.endCount d p + (pipeEnd .write pipe).endNat d p :=
    endCount_set_free _ (w₁.openFile_allocateDynamicFileFd (readEnd.2 + 1))
  have hends : ∀ d p, w.openPipe.host.ends d p =
      w.host.ends d p + (pipeEnd .read pipe).endNat d p + (pipeEnd .write pipe).endNat d p := by
    intro d p
    have hget : w.openPipe.host.ends d p = ((w.host.pipes.alloc ⟨[], 1, 1⟩).get p).ends d := rfl
    rw [hget, get_alloc]
    by_cases hp : p = w.host.pipes.next
    · have hzero := hs.allocated d p (le_of_eq hp.symm)
      rw [hp] at hzero
      cases d <;> simp [hp, hzero, Pipe.ends, OpenFile.endNat, OpenFile.isEnd, pipeEnd, pipe]
    · have hne : ¬pipe = p := fun h => hp h.symm
      cases d <;> simp [hp, hne, Host.ends, OpenFile.endNat, OpenFile.isEnd, pipeEnd]
  have hb : Balanced w w.openPipe := by
    intro d p
    have := hread d p
    have := hwrite d p
    have := hends d p
    omega
  have hfresh₁ : Fresh w₁.runtime := fresh_allocated (w := w.allocPipe) hs.fresh _ _
  refine ⟨hs.of_balanced hb (fresh_allocated hfresh₁ _ _) fun d p hp => ?_, hb⟩
  have hnext : w.openPipe.host.pipes.next = w.host.pipes.next + 1 := rfl
  have hne : ¬pipe = p := by
    have : pipe = w.host.pipes.next := rfl
    omega
  rw [hends, hs.allocated d p (by omega)]
  cases d <;> simp [hne, OpenFile.endNat, OpenFile.isEnd, pipeEnd]

/-- Every plain effect keeps the counts. -/
theorem Plain.keepsCounts (h : Plain w w') : KeepsCounts w w' := by
  intro hs
  cases h with
  | quiet h => exact keepsCounts_quiet h hs
  | pipeBytes pipe bytes hlimit => exact keepsCounts_setPipeBytes w pipe bytes hs
  | content | adopt => exact keepsCounts_of_frame rfl rfl hs
  | @truncate mount key record hget =>
    refine keepsCounts_of_frame ?_ ?_ hs
    · cases mount <;> rfl
    · cases mount <;> rfl
  | opened offset h hoffset =>
    have halloc : KeepsCounts w (w.allocOffset offset) := keepsCounts_of_frame rfl rfl
    exact halloc.trans (keepsCounts_opened h.endNat) hs
  | closed hfile => exact keepsCounts_closed hfile hs
  | moved hfile htarget hne => exact keepsCounts_moved hfile htarget hne hs
  | duplicated hfile htarget =>
    exact keepsCounts_duplicated (fun d p hp => hfile.endNat hs hp) htarget hs
  | preopened stat preopenPath mount htarget =>
    have halloc : KeepsCounts w (w.allocOffset 0) := keepsCounts_of_frame rfl rfl
    exact halloc.trans (keepsCounts_duplicated (fun _ _ _ => rfl) htarget) hs
  | piped => exact keepsCounts_openPipe w hs
  | rights rightsBase rightsInheriting hfile =>
    exact keepsCounts_putOpenFile hfile (endNat_withRights _ _ _) hs

theorem Plains.keepsCounts (h : Plains w w') : KeepsCounts w w' := by
  induction h with
  | refl => exact KeepsCounts.refl _
  | tail _ hstep ih => exact ih.trans hstep.keepsCounts

/-- An edit of a mount changes no descriptor into an end of another pipe. -/
theorem keepsCounts_perform (w : World) (mount : VirtualMount) (e : Mount.Edit ℕ) :
    KeepsCounts w (w.perform mount e) := by
  have hframe := w.framed_perform mount e
  refine keepsCounts_of_eq (fun d p => ?_) (by rw [hframe.pipes]) (fun d p => ?_)
    (fun fd file hf => .inl ?_) (le_of_eq hframe.nextFileFd.symm)
  · simp only [Host.ends, hframe.pipes]
  · rw [Runtime.endCount, openFiles_perform]
    refine countVals_mapVals (q := fun file : OpenFile => file.isEnd d p) _ _ _
      fun _ file _ => ?_
    simp only [OpenFile.isEnd, kind_follow]
  · have hhas := has_of_get hf
    rwa [openFiles_perform, has_mapVals] at hhas

theorem keepsCounts_call (w : World) (c : Call) : KeepsCounts w (w.call c) := by
  rcases w.call_effects c with h | ⟨mount, e, he, h⟩
  · exact h.keepsCounts
  · exact (keepsCounts_perform w mount e).trans h.keepsCounts

/-- Binding the descriptors to the files of a new snapshot changes no end of a pipe. -/
theorem keepsCounts_childSnapshot (w : World) (snapshot : SnapshotTree) :
    KeepsCounts w (w.importWasiWorkspaceSnapshot snapshot).rebindOpenWorkspaceFiles := by
  refine childSnapshot_induction (P := KeepsCounts w)
    (fun w' h => keepsCounts_of_frame h.pipes h.runtime)
    (fun w' path h => h.trans (keepsCounts_of_frame rfl rfl))
    fun w' fd file old record writable offset hfile hkind h => h.trans ?_
  refine keepsCounts_putOpenFile hfile fun d p => ?_
  simp [OpenFile.endNat, OpenFile.isEnd, hkind]

/-! ### The buffers -/

/-- Every buffer is within its limit. -/
def Bounded (host : Host) : Prop := ∀ pipe, (host.pipes.get pipe).bytes.length ≤ pipeBufferLimit

theorem bytes_retainOpenFile (host : Host) (file : OpenFile) (pipe : ℕ) :
    ((host.retainOpenFile file).pipes.get pipe).bytes = (host.pipes.get pipe).bytes := by
  unfold Host.retainOpenFile
  split
  next d p hkind =>
    simp only [get_modify]
    split
    next heq =>
      rw [heq]
      cases d <;> rfl
    · rfl
  · rfl

theorem bytes_closeOpenFile (host : Host) (file : OpenFile) (pipe : ℕ) :
    ((host.closeOpenFile file).pipes.get pipe).bytes = (host.pipes.get pipe).bytes := by
  unfold Host.closeOpenFile
  split
  next d p hkind =>
    simp only [get_modify]
    split
    next heq =>
      rw [heq]
      cases d <;> rfl
    · rfl
  · rfl

theorem bounded_foldl {f : Host → OpenFile → Host}
    (hf : ∀ host file pipe, ((f host file).pipes.get pipe).bytes = (host.pipes.get pipe).bytes)
    (files : List OpenFile) {host : Host} (h : Bounded host) : Bounded (files.foldl f host) := by
  induction files generalizing host with
  | nil => exact h
  | cons file files ih =>
    exact ih fun p => (congrArg List.length (hf host file p)).trans_le (h p)

theorem bytes_closeReplaced (w : World) (target : Int) (pipe : ℕ) :
    ((w.closeReplaced target).host.pipes.get pipe).bytes = (w.host.pipes.get pipe).bytes := by
  cases h : w.openFile target with
  | none => simp only [closeReplaced, h, setHost]
  | some replaced =>
    simp only [closeReplaced, h, setHost]
    exact bytes_closeOpenFile w.host replaced pipe

theorem Plain.bounded (h : Plain w w') (hw : Bounded w.host) : Bounded w'.host := by
  cases h with
  | quiet h =>
    intro p
    rw [h.pipes]
    exact hw p
  | pipeBytes pipe bytes hlimit =>
    intro p
    simp only [setPipeBytes, setHost, Host.modifyPipe, get_modify]
    split
    · exact hlimit (hw pipe)
    · exact hw p
  | content | adopt => exact hw
  | @truncate mount key record hget => cases mount <;> exact hw
  | opened => exact hw
  | @closed fd file hfile =>
    intro p
    exact (congrArg List.length (bytes_closeOpenFile w.host file p)).trans_le (hw p)
  | @moved fd target file hfile htarget hne =>
    intro p
    exact (congrArg List.length (bytes_closeReplaced w target p)).trans_le (hw p)
  | @duplicated target file hfile htarget =>
    intro p
    refine (congrArg List.length ?_).trans_le (hw p)
    exact (bytes_retainOpenFile _ file p).trans (bytes_closeReplaced w target p)
  | @preopened target stat preopenPath mount htarget =>
    intro p
    refine (congrArg List.length ?_).trans_le (hw p)
    exact (bytes_retainOpenFile _ _ p).trans (bytes_closeReplaced (w.allocOffset 0) target p)
  | piped =>
    intro p
    change ((w.host.pipes.alloc ⟨[], 1, 1⟩).get p).bytes.length ≤ _
    rw [get_alloc]
    split
    · exact Nat.zero_le _
    · exact hw p
  | rights => exact hw

theorem Plains.bounded (h : Plains w w') (hw : Bounded w.host) : Bounded w'.host := by
  induction h with
  | refl => exact hw
  | tail _ hstep ih => exact hstep.bounded ih

theorem bounded_call (hw : Bounded w.host) (c : Call) : Bounded (w.call c).host := by
  rcases w.call_effects c with h | ⟨mount, e, he, h⟩
  · exact h.bounded hw
  · refine h.bounded fun p => ?_
    rw [(w.framed_perform mount e).pipes]
    exact hw p

/-! ### What the guest sees -/

/-- The call succeeded and reported that no byte was read. -/
def ReportsEof (result : IoResult) (nreadPtr : Int) : Prop :=
  result.2.2 = .ok () ∧ result.2.1.readU32 nreadPtr = some 0

/-- The whole table of a read lies in the memory, and all its entries are empty. The table is read
after the number of bytes read has been set to zero. -/
def AsksForNothing (mem : Memory) (iovsPtr iovsLen nreadPtr : Int) : Prop :=
  ∃ mem₀ iovs, mem.writeU32 nreadPtr 0 = some mem₀ ∧
    readIovs mem₀ iovsLen.toNat iovsPtr = some iovs ∧ ∀ iov ∈ iovs, iov.dataLength = 0

/-- A scatter leaves the size of the memory. -/
theorem byteLength_scatter {input : Bytes} {count : ℕ} {iovPtr : Int} {s t : Scatter}
    (h : scatter input count iovPtr s = some t) : t.mem.byteLength = s.mem.byteLength := by
  induction count generalizing iovPtr s with
  | zero => rw [← Option.some.inj h]
  | succ count ih =>
    rw [scatter] at h
    dsimp only at h
    split at h
    · rw [← Option.some.inj h]
    split at h
    · cases h
    next iov hiov =>
      split at h
      · exact ih h
      split at h
      · cases h
      next mem hmem => exact (ih h).trans (s.mem.byteLength_of_setBytes hmem)

/-- Finishing with a small number in a slot that exists succeeds and stores it. -/
theorem readU32_finishU32 (mem : Memory) {ptr : Int} (hptr : 0 ≤ ptr ∧ ptr + 4 ≤ mem.byteLength)
    (value : ℕ) :
    (mem.finishU32 ptr value (.ok ())).2 = .ok () ∧
      (mem.finishU32 ptr value (.ok ())).1.readU32 ptr = some (value % 2 ^ 32) := by
  unfold Memory.finishU32
  obtain ⟨mem', hmem'⟩ := Option.isSome_iff_exists.1 ((mem.writeU32_isSome_iff ptr value).2 hptr)
  rw [hmem']
  exact ⟨rfl, mem.readU32_writeU32 hmem'⟩

/-- When a read through a read end reports the end of the stream. -/
theorem reportsEof_fdRead_iff (hbounded : Bounded w.host) (hfile : w.openFile fd = some file)
    (hkind : file.kind = .pipe .read pipe) (mem : Memory) (iovsPtr iovsLen nreadPtr : Int) :
    ReportsEof (w.fdRead mem fd iovsPtr iovsLen nreadPtr) nreadPtr ↔
      (0 ≤ nreadPtr ∧ nreadPtr + 4 ≤ mem.byteLength) ∧ hasRight file.rights rightFdRead = true ∧
        (((w.host.pipes.get pipe).bytes = [] ∧ w.host.ends .write pipe = 0) ∨
          ((w.host.pipes.get pipe).bytes ≠ [] ∧ AsksForNothing mem iovsPtr iovsLen nreadPtr)) := by
  obtain ⟨kind, mount, path, rights, fdflags⟩ := file
  obtain rfl : kind = .pipe .read pipe := hkind
  have hread : w.fdRead mem fd iovsPtr iovsLen nreadPtr =
      w.fdReadPipe mem ⟨.pipe .read pipe, mount, path, rights, fdflags⟩ .read pipe iovsPtr iovsLen
        nreadPtr := by
    simp only [fdRead, hfile]
  rw [hread]
  unfold fdReadPipe
  cases hmem : mem.writeU32 nreadPtr 0 with
  | none =>
    have hptr : ¬(0 ≤ nreadPtr ∧ nreadPtr + 4 ≤ mem.byteLength) := by
      rw [← mem.writeU32_isSome_iff nreadPtr 0, hmem]
      simp
    simp [ReportsEof, hptr]
  | some mem₀ =>
    have hptr : 0 ≤ nreadPtr ∧ nreadPtr + 4 ≤ mem.byteLength := by
      rw [← mem.writeU32_isSome_iff nreadPtr 0, hmem]
      rfl
    have hzero := mem.readU32_writeU32 hmem
    by_cases hright : hasRight rights rightFdRead = true
    · by_cases hbytes : (w.host.pipes.get pipe).bytes = []
      · simp only [ReportsEof, hptr, hright, hbytes, Host.ends, Pipe.ends]
        by_cases hwriters : (w.host.pipes.get pipe).writers = 0
        · simp [hwriters, hzero]
        · simp [hwriters, Nat.pos_of_ne_zero hwriters]
      · have htotal : ∀ t, readIntoIovs mem₀ (w.host.pipes.get pipe).bytes 0 iovsPtr iovsLen =
            some t → (ReportsEof (w, t.mem.finishU32 nreadPtr t.total (.ok ())) nreadPtr ↔
              t.total = 0) := by
          intro t ht
          have hsize : t.mem.byteLength = mem.byteLength :=
            (byteLength_scatter ht).trans (mem.byteLength_of_writeU32 hmem)
          obtain ⟨hok, hvalue⟩ := readU32_finishU32 t.mem (hsize ▸ hptr) t.total
          have hle : t.total ≤ pipeBufferLimit := by
            have hdelivered := congrArg List.length (readIntoIovs_delivered ht)
            rw [drop_zero, length_take] at hdelivered
            have := hbounded pipe
            change t.total = _ at hdelivered
            omega
          rw [ReportsEof, hok, hvalue]
          simp only [true_and, Option.some.injEq]
          have : pipeBufferLimit < 2 ^ 32 := by decide
          omega
        have hnothing := scatter_total_eq_zero_iff mem₀ hbytes iovsLen.toNat iovsPtr
        have hasks : AsksForNothing mem iovsPtr iovsLen nreadPtr ↔
            ∃ t, readIntoIovs mem₀ (w.host.pipes.get pipe).bytes 0 iovsPtr iovsLen = some t ∧
              t.total = 0 := by
          rw [readIntoIovs, drop_zero, hnothing, AsksForNothing, hmem]
          simp
        simp only [hasks, hbytes, hright, hptr, ne_eq, not_true_eq_false, if_false,
          not_false_eq_true, false_and, true_and, false_or, and_self, Bool.true_eq_false]
        cases ht : readIntoIovs mem₀ (w.host.pipes.get pipe).bytes 0 iovsPtr iovsLen with
        | none => simp [ReportsEof]
        | some t =>
          have := htotal t ht
          simp only [ReportsEof, Option.some.injEq, exists_eq_left'] at this ⊢
          exact this
    · rw [Bool.not_eq_true] at hright
      simp [ReportsEof, hright]

/-- When a write through a write end reports that nobody reads. -/
theorem fdWrite_pipe_iff (hfile : w.openFile fd = some file) (hkind : file.kind = .pipe .write pipe)
    (mem : Memory) (iovsPtr iovsLen nwrittenPtr : Int) :
    (w.fdWrite mem fd iovsPtr iovsLen nwrittenPtr).2.2 = .error (.errno .pipe) ↔
      (0 ≤ nwrittenPtr ∧ nwrittenPtr + 4 ≤ mem.byteLength) ∧
        hasRight file.rights rightFdWrite = true ∧ w.host.ends .read pipe = 0 := by
  have hwrite : w.fdWrite mem fd iovsPtr iovsLen nwrittenPtr =
      w.fdWritePipe mem file .write pipe iovsPtr iovsLen nwrittenPtr := by
    simp only [fdWrite, hfile, hkind]
  have hfinish : ∀ (m : Memory) value,
      (m.finishU32 nwrittenPtr value (.ok ())).2 ≠ .error (.errno .pipe) := by
    intro m value
    unfold Memory.finishU32
    split <;> simp
  rw [hwrite, ← mem.writeU32_isSome_iff nwrittenPtr 0]
  unfold fdWritePipe
  cases hmem : mem.writeU32 nwrittenPtr 0 with
  | none => simp
  | some =>
    by_cases hright : hasRight file.rights rightFdWrite = true
    · by_cases hreaders : (w.host.pipes.get pipe).readers = 0
      · simp [hright, hreaders, Host.ends, Pipe.ends]
      · simp only [hright, hreaders, Host.ends, Pipe.ends]
        refine iff_of_false ?_ (by simp)
        repeat' split
        all_goals simp_all
    · rw [Bool.not_eq_true] at hright
      simp [hright]

end World

/-! ### Runs -/

namespace System

/-- The number of descriptors of an end of a pipe in the tables of all live runtimes. -/
def endCount (s : System) (direction : Direction) (pipe : ℕ) : ℕ :=
  (s.runtimes.map fun r => r.endCount direction pipe).sum

/-- The counts are exact, and the numbers in use are below the next free one. -/
structure Exact (s : System) : Prop where
  counts : ∀ direction pipe, s.host.ends direction pipe = s.endCount direction pipe
  fresh : ∀ r ∈ s.runtimes, World.Fresh r
  allocated : ∀ direction pipe, s.host.pipes.next ≤ pipe → s.host.ends direction pipe = 0

theorem endCount_eq (s : System) (direction : Direction) (pipe : ℕ) :
    s.endCount direction pipe = s.runtime.endCount direction pipe +
      (s.parent.toList.map fun r => r.endCount direction pipe).sum := by
  simp [endCount, runtimes]

variable {s : System}

theorem Exact.sound (h : s.Exact) : s.world.Sound := by
  refine ⟨h.fresh s.runtime mem_cons_self, fun d p => ?_, h.allocated⟩
  have := h.counts d p
  have := s.endCount_eq d p
  change s.runtime.endCount d p ≤ s.host.ends d p
  omega

/-- What keeps the counts for the running runtime keeps them for the system. -/
theorem Exact.withWorld (h : s.Exact) {w : World} (hw : World.KeepsCounts s.world w) :
    (s.withWorld w).Exact := by
  obtain ⟨hs, hb⟩ := hw h.sound
  refine ⟨fun d p => ?_, fun r hr => ?_, hs.allocated⟩
  · have hcount := h.counts d p
    rw [endCount_eq] at hcount ⊢
    have := hb d p
    change w.host.ends d p = w.runtime.endCount d p +
      (s.parent.toList.map fun r => r.endCount d p).sum
    change w.host.ends d p + s.runtime.endCount d p = s.host.ends d p + w.runtime.endCount d p
      at this
    omega
  · rcases mem_cons.1 hr with rfl | hparent
    · exact hs.fresh
    · exact h.fresh r (mem_cons_of_mem _ hparent)

/-- A fork opens every descriptor of the parent once more. -/
theorem Exact.fork (h : s.Exact) : s.fork.Exact := by
  cases hparent : s.parent with
  | some => simpa [System.fork, hparent] using h
  | none =>
    have hstep : s.fork =
        { s.withWorld s.world.forkChild with parent := some s.runtime } := by
      simp [System.fork, hparent]
    have hends : ∀ d p, s.fork.host.ends d p =
        s.host.ends d p + s.runtime.endCount d p := by
      intro d p
      rw [hstep, Runtime.endCount_eq_countP]
      exact s.host.ends_foldl_retainOpenFile _ d p
    have hchild : ∀ d p, s.fork.runtime.endCount d p = s.runtime.endCount d p := by
      intro d p
      rw [hstep]
      exact countVals_mapVals (q := fun file : OpenFile => file.isEnd d p) _ _ _
        fun _ _ _ => rfl
    have hfresh := h.fresh s.runtime mem_cons_self
    have hnext : s.fork.host.pipes.next = s.host.pipes.next := by
      rw [hstep]
      exact s.host.next_foldl_retainOpenFile _
    refine ⟨fun d p => ?_, fun r hr => ?_, fun d p hp => ?_⟩
    · have hcount := h.counts d p
      have hparent' : s.fork.parent = some s.runtime := by rw [hstep]
      rw [endCount_eq, hparent, Option.toList_none, map_nil, sum_nil] at hcount
      rw [endCount_eq, hchild, hparent', hends]
      simp only [Option.toList_some, map_cons, map_nil, sum_cons, sum_nil]
      omega
    · rw [hstep] at hr
      simp only [runtimes, Option.toList_some, mem_cons, not_mem_nil, or_false] at hr
      rcases hr with rfl | rfl
      · refine ⟨fun fd file hf => ?_, hfresh.first⟩
        have hget : (s.runtime.openFiles.mapVals fun _ file => file).get fd = some file := hf
        rw [World.mapVals_self] at hget
        exact hfresh.lt fd file hget
      · exact hfresh
    · have hcount := h.counts d p
      rw [endCount_eq] at hcount
      have := h.allocated d p (hnext ▸ hp)
      have := hends d p
      omega

/-- An exit closes every descriptor of the child. -/
theorem Exact.exit (h : s.Exact) : s.exit.Exact := by
  cases hparent : s.parent with
  | none => simpa [System.exit, hparent] using h
  | some parent =>
    have hstep : s.exit = ⟨s.world.closeAllOpenFiles.host, parent, none⟩ := by
      simp [System.exit, hparent]
    have hends : ∀ d p, s.exit.host.ends d p =
        s.host.ends d p - s.runtime.endCount d p := by
      intro d p
      rw [hstep, Runtime.endCount_eq_countP]
      exact s.host.ends_foldl_closeOpenFile _ d p
    have hnext : s.exit.host.pipes.next = s.host.pipes.next := by
      rw [hstep]
      exact s.host.next_foldl_closeOpenFile _
    refine ⟨fun d p => ?_, fun r hr => ?_, fun d p hp => ?_⟩
    · have hcount := h.counts d p
      rw [endCount_eq, hparent] at hcount
      rw [hends, endCount_eq, hstep]
      simp only [Option.toList_some, Option.toList_none, map_cons, map_nil,
        sum_cons, sum_nil] at hcount ⊢
      omega
    · rw [hstep] at hr
      obtain rfl : r = parent := by simpa [runtimes] using hr
      exact h.fresh r (by simp [runtimes, hparent])
    · rw [hends, h.allocated d p (hnext ▸ hp), Nat.zero_sub]

/-- Every event keeps the counts exact. -/
theorem Exact.step (h : s.Exact) (e : Event) : (s.step e).Exact := by
  cases e with
  | call c => exact h.withWorld (World.keepsCounts_call s.world c)
  | fork => exact h.fork
  | exit => exact h.exit
  | childInput fd => exact h.withWorld (s.world.plains_processExecInputBytes fd).keepsCounts
  | childOutput fd bytes => exact h.withWorld (s.world.plains_writeBytesToFd fd bytes).keepsCounts
  | childSnapshot snapshot =>
    exact h.withWorld (World.keepsCounts_childSnapshot s.world snapshot)

/-- Before the first call there are no descriptors. -/
theorem exact_start {host : Host} (hpipes : host.pipes = Heap.empty) (cwd : Option Text)
    (stdin : Bytes) : (start host cwd stdin).Exact := by
  have hends : ∀ d p, host.ends d p = 0 := by
    intro d p
    rw [Host.ends, hpipes]
    cases d <;> rfl
  refine ⟨fun d p => hends d p, fun r hr => ?_, fun d p _ => hends d p⟩
  obtain rfl : r = World.newRuntime host cwd stdin := by simpa [runtimes, start] using hr
  refine ⟨fun fd file hf => ?_, ?_⟩
  · cases hf
  · unfold World.newRuntime
    dsimp only
    split <;> decide

theorem bounded_step (h : World.Bounded s.host) (e : Event) : World.Bounded (s.step e).host := by
  cases e with
  | call c => exact World.bounded_call (w := s.world) h c
  | childInput fd => exact (s.world.plains_processExecInputBytes fd).bounded h
  | childOutput fd bytes => exact (s.world.plains_writeBytesToFd fd bytes).bounded h
  | fork =>
    simp only [step, fork]
    split
    · exact World.bounded_foldl World.bytes_retainOpenFile _ h
    · exact h
  | exit =>
    simp only [step, exit]
    split
    · exact World.bounded_foldl World.bytes_closeOpenFile _ h
    · exact h
  | childSnapshot =>
    refine World.childSnapshot_induction (P := fun w => World.Bounded w.host)
      (fun w himported p => ?_)
      (fun _ _ hw => hw) fun _ _ _ _ _ _ _ _ _ hw => hw
    rw [himported.pipes]
    exact h p

section

variable {snapshot : Option World.SnapshotTree} {files rootFiles : List PackageFile}
  {cwd : Option Text} {stdin : Bytes} {s : System}
  (hrun : Reach System.step (boot snapshot files rootFiles cwd stdin) s)

include hrun

/-- In every reachable state the reference counts are the numbers of open descriptors. -/
theorem exact_of_reach : s.Exact :=
  hrun.invariant (exact_start (pipes_createWasiWorkspaceMount ..) cwd stdin)
    fun _ e h _ => h.step e

/-- In every reachable state the buffers are within their limit. -/
theorem bounded_of_reach : World.Bounded s.host := by
  refine hrun.invariant (I := fun t => World.Bounded t.host) (fun p => ?_)
    fun _ e h _ => bounded_step h e
  change ((createWasiWorkspaceMount snapshot files rootFiles).pipes.get p).bytes.length ≤ _
  rw [pipes_createWasiWorkspaceMount]
  exact Nat.zero_le _

/-- The reference counts of pipes are exact, whatever the runtimes have called and however often
they have forked. A read through a read end reports the end of the stream exactly when there is
nothing to read and nobody left to write, or when nothing was asked for; a write through a write
end reports a broken pipe exactly when nobody is left to read. -/
theorem pipe_counts_exact :
    (∀ direction pipe, s.host.ends direction pipe = s.endCount direction pipe) ∧
    (∀ fd file pipe, s.world.openFile fd = some file → file.kind = .pipe .read pipe →
      ∀ mem iovsPtr iovsLen nreadPtr,
        World.ReportsEof (s.world.fdRead mem fd iovsPtr iovsLen nreadPtr) nreadPtr ↔
          (0 ≤ nreadPtr ∧ nreadPtr + 4 ≤ mem.byteLength) ∧
            hasRight file.rights rightFdRead = true ∧
            (((s.host.pipes.get pipe).bytes = [] ∧ s.endCount .write pipe = 0) ∨
              ((s.host.pipes.get pipe).bytes ≠ [] ∧
                World.AsksForNothing mem iovsPtr iovsLen nreadPtr))) ∧
    (∀ fd file pipe, s.world.openFile fd = some file → file.kind = .pipe .write pipe →
      ∀ mem iovsPtr iovsLen nwrittenPtr,
        (s.world.fdWrite mem fd iovsPtr iovsLen nwrittenPtr).2.2 = .error (.errno .pipe) ↔
          (0 ≤ nwrittenPtr ∧ nwrittenPtr + 4 ≤ mem.byteLength) ∧
            hasRight file.rights rightFdWrite = true ∧ s.endCount .read pipe = 0) := by
  have hexact := exact_of_reach hrun
  have hbounded := bounded_of_reach hrun
  refine ⟨hexact.counts, fun fd file pipe hfile hkind mem iovsPtr iovsLen nreadPtr => ?_,
    fun fd file pipe hfile hkind mem iovsPtr iovsLen nwrittenPtr => ?_⟩
  · rw [← hexact.counts .write pipe]
    exact World.reportsEof_fdRead_iff (w := s.world) hbounded hfile hkind mem iovsPtr iovsLen
      nreadPtr
  · rw [← hexact.counts .read pipe]
    exact World.fdWrite_pipe_iff hfile hkind mem iovsPtr iovsLen nwrittenPtr

end

/-- A run that has opened a pipe, with the numbers 5 and 6 for its ends. -/
def newPipe : System := (boot none [] [] none []).step (.call (.fdPipe iovMemory 16 20))

/-- A run that has also written one byte into the pipe. -/
def onePipe : System := newPipe.step (.call (.fdWrite iovMemory 6 8 1 24))

theorem reach_onePipe : Reach System.step (boot none [] [] none []) onePipe :=
  (Run.start.next _ trivial).next _ trivial

/-- The counts after a pipe was opened, from the general theorem. -/
theorem pipe_counts_exact_onePipe : onePipe.host.ends .write 0 = onePipe.endCount .write 0 :=
  (pipe_counts_exact reach_onePipe).1 .write 0

/-- A read that asks for no byte reports success with no byte although the buffer is not empty and
a write end is open. -/
theorem reportsEof_nonempty_pipe :
    ∃ s, Reach System.step (boot none [] [] none []) s ∧
      ∃ fd file pipe mem iovsPtr iovsLen nreadPtr, s.world.openFile fd = some file ∧
        file.kind = .pipe .read pipe ∧
        World.ReportsEof (s.world.fdRead mem fd iovsPtr iovsLen nreadPtr) nreadPtr ∧
        (s.host.pipes.get pipe).bytes ≠ [] ∧ 0 < s.endCount .write pipe := by
  refine ⟨onePipe, reach_onePipe, 5, World.pipeEnd .read 0, 0, iovMemory, 8, 0, 24, ?_, rfl,
    ⟨?_, ?_⟩, ?_, ?_⟩
  all_goals decide

end System

end WasmHost

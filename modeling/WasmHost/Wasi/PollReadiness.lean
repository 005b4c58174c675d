import WasmHost.Wasi.IoBuffers
import WasmHost.Wasi.NumbersOverRuns

/-!
# Readiness and the calls it announces

`poll_oneoff` has its own answer to what a read or a write would do. It agrees with `fd_read` and
`fd_write` where both look at the same things: not for a standard stream that has been replaced, not
for a pipe that is empty or full while its other end is open, not for a file that is open without
the right to be read, and not for a number that a guest cannot pass.

* `System.pollTells_iff`: when the events of a poll tell what the next call does.
* `System.not_pollTells`: where they do not.
-/

namespace WasmHost

/-- The result of a call that returns an errno. -/
def Errno.outcome (errno : Errno) : Except Failure Unit :=
  if errno = .success then .ok () else .error (.errno errno)

theorem Errno.outcome_inj {a b : Errno} : a.outcome = b.outcome ↔ a = b := by
  refine ⟨fun h => ?_, congrArg outcome⟩
  unfold outcome at h
  split at h
  next ha =>
    split at h
    next hb => exact ha.trans hb.symm
    · cases h
  · split at h
    · cases h
    · exact Failure.errno.inj (Except.error.inj h)

namespace World

/-! ### What a call returns -/

/-- The errno of a call, and the number of bytes that it reports. -/
structure Report where
  errno : Errno
  count : ℕ

/-- The call has returned with a report. -/
structure Returns (result : IoResult) (ptr : Int) (report : Report) : Prop where
  outcome : result.2.2 = report.errno.outcome
  count : result.2.1.readU32 ptr = some report.count

section

variable {w : World} {mem : Memory} {iovsPtr iovsLen ptr : Int} {size : ℕ}

theorem returns_finishU32 (w' : World) (hptr : 0 ≤ ptr ∧ ptr + 4 ≤ mem.byteLength) (errno : Errno)
    {count : ℕ} (hcount : count < 2 ^ 32) :
    Returns (w', mem.finishU32 ptr count errno.outcome) ptr ⟨errno, count⟩ := by
  obtain ⟨mem', hmem'⟩ := Option.isSome_iff_exists.1 ((mem.writeU32_isSome_iff ptr count).2 hptr)
  have hvalue := mem.readU32_writeU32 hmem'
  rw [Nat.mod_eq_of_lt hcount] at hvalue
  unfold Memory.finishU32
  rw [hmem']
  exact ⟨rfl, hvalue⟩

/-- What standard input gives to a buffer. -/
def stdinReport (w : World) (size : ℕ) : Report := ⟨.success, min w.stdinRemaining size⟩

/-- What `fd_read` returns with a buffer of some size. -/
def readReport (w : World) (fd : Int) (size : ℕ) : Report :=
  match w.openFile fd with
  | some ⟨.pipe direction pipe, _, _, rights, _⟩ =>
      if direction ≠ .read then ⟨.badf, 0⟩
      else if hasRight rights rightFdRead = false then ⟨.notcapable, 0⟩
      else if (w.host.pipes.get pipe).bytes = [] then
        ⟨if 0 < (w.host.pipes.get pipe).writers then .again else .success, 0⟩
      else ⟨.success, min (w.host.pipes.get pipe).bytes.length size⟩
  | some ⟨.stdio stdioFd, _, _, rights, _⟩ =>
      if stdioFd ≠ stdinFd then ⟨.badf, 0⟩
      else if hasRight rights rightFdRead = false then ⟨.notcapable, 0⟩
      else w.stdinReport size
  | some ⟨.directory .., _, _, _, _⟩ => ⟨.isdir, 0⟩
  | some ⟨.file record _ offset, _, _, _, _⟩ =>
      if w.isDirectoryFd fd = true then ⟨.isdir, 0⟩
      else
        ⟨.success, min ((w.host.records.get record).bytes.length - w.host.offsets.get offset) size⟩
  | none =>
      if w.isDirectoryFd fd = true then ⟨.isdir, 0⟩
      else if fd ≠ stdinFd then ⟨.badf, 0⟩
      else w.stdinReport size

section

variable (h : IoBuffer mem iovsPtr iovsLen ptr size)
include h

theorem returns_readStdin :
    Returns (w.readStdin mem iovsPtr iovsLen ptr) ptr (w.stdinReport size) := by
  have hsmall := h.small
  obtain ⟨t, ht, htotal, hlength⟩ := h.readIntoIovs w.runtime.stdin w.runtime.stdinOffset
  unfold readStdin stdinReport stdinRemaining
  rw [ht, ← htotal]
  exact returns_finishU32 _ (hlength ▸ h.word) .success (by omega)

theorem returns_fdReadStdio (file : OpenFile) (stdioFd : Int) :
    Returns (w.fdReadStdio mem file stdioFd iovsPtr iovsLen ptr) ptr
      (if stdioFd ≠ stdinFd then ⟨.badf, 0⟩
        else if hasRight file.rights rightFdRead = false then ⟨.notcapable, 0⟩
        else w.stdinReport size) := by
  obtain ⟨mem₀, hmem₀, hbuffer, hzero⟩ := h.writeU32 0
  unfold fdReadStdio
  rw [hmem₀]
  dsimp only
  split
  · exact ⟨rfl, hzero⟩
  split
  · exact ⟨rfl, hzero⟩
  · exact returns_readStdin hbuffer

theorem returns_fdReadPipe (file : OpenFile) (direction : Direction) (pipe : ℕ) :
    Returns (w.fdReadPipe mem file direction pipe iovsPtr iovsLen ptr) ptr
      (if direction ≠ .read then ⟨.badf, 0⟩
        else if hasRight file.rights rightFdRead = false then ⟨.notcapable, 0⟩
        else if (w.host.pipes.get pipe).bytes = [] then
          ⟨if 0 < (w.host.pipes.get pipe).writers then .again else .success, 0⟩
        else ⟨.success, min (w.host.pipes.get pipe).bytes.length size⟩) := by
  have hsmall := h.small
  obtain ⟨mem₀, hmem₀, hbuffer, hzero⟩ := h.writeU32 0
  unfold fdReadPipe
  rw [hmem₀]
  dsimp only
  split
  · exact ⟨rfl, hzero⟩
  split
  · exact ⟨rfl, hzero⟩
  split
  · refine ⟨?_, hzero⟩
    split <;> rfl
  · obtain ⟨t, ht, htotal, hlength⟩ :=
      hbuffer.readIntoIovs (w.host.pipes.get pipe).bytes 0
    rw [Nat.sub_zero] at htotal
    rw [ht, ← htotal]
    exact returns_finishU32 _ (hlength ▸ hbuffer.word) .success (by omega)

theorem returns_readOpenFile (record offset : ℕ) :
    Returns (w.readOpenFile mem record offset iovsPtr iovsLen ptr) ptr
      ⟨.success,
        min ((w.host.records.get record).bytes.length - w.host.offsets.get offset) size⟩ := by
  have hsmall := h.small
  obtain ⟨t, ht, htotal, hlength⟩ :=
    h.readIntoIovs (w.host.records.get record).bytes (w.host.offsets.get offset)
  unfold readOpenFile
  rw [ht, ← htotal]
  exact returns_finishU32 _ (hlength ▸ h.word) .success (by omega)

theorem returns_fdRead (fd : Int) :
    Returns (w.fdRead mem fd iovsPtr iovsLen ptr) ptr (w.readReport fd size) := by
  have hfails : ∀ errno : Errno,
      Returns (w, mem.finishU32 ptr 0 errno.outcome) ptr ⟨errno, 0⟩ := fun errno =>
    returns_finishU32 w h.word errno (by decide)
  unfold fdRead readReport
  cases w.openFile fd with
  | none =>
    dsimp only
    split
    · exact hfails .isdir
    split
    · exact hfails .badf
    · exact returns_readStdin h
  | some file =>
    obtain ⟨kind, mount, path, rights, fdflags⟩ := file
    cases kind with
    | pipe direction pipe => exact returns_fdReadPipe h _ direction pipe
    | stdio stdioFd => exact returns_fdReadStdio h _ stdioFd
    | directory => exact hfails .isdir
    | file record writable offset =>
      dsimp only
      split
      · exact hfails .isdir
      · exact returns_readOpenFile h record offset

end

/-- What `fd_write` returns for a single byte. -/
def writeReport (w : World) (fd : Int) : Errno :=
  match w.openFile fd with
  | none => if fd ≠ stdoutFd ∧ fd ≠ stderrFd then .badf else .success
  | some file =>
      match file.kind with
      | .pipe direction pipe =>
          if direction ≠ .write then .badf
          else if hasRight file.rights rightFdWrite = false then .notcapable
          else if (w.host.pipes.get pipe).readers = 0 then .pipe
          else if pipeBufferLimit < (w.host.pipes.get pipe).bytes.length + 1 then .again
          else .success
      | .stdio stdioFd =>
          if stdioFd ≠ stdoutFd ∧ stdioFd ≠ stderrFd then .badf
          else if hasRight file.rights rightFdWrite = false then .notcapable
          else .success
      | .directory .. => .notcapable
      | .file .. => if file.canWriteFile = false then .notcapable else .success

theorem outcome_finishU32 (hptr : 0 ≤ ptr ∧ ptr + 4 ≤ mem.byteLength) (value : ℕ) (errno : Errno) :
    (mem.finishU32 ptr value errno.outcome).2 = errno.outcome := by
  obtain ⟨mem', hmem'⟩ := Option.isSome_iff_exists.1 ((mem.writeU32_isSome_iff ptr value).2 hptr)
  unfold Memory.finishU32
  rw [hmem']

theorem outcome_fdWrite (h : IoBuffer mem iovsPtr iovsLen ptr 1) (fd : Int) :
    (w.fdWrite mem fd iovsPtr iovsLen ptr).2.2 = (w.writeReport fd).outcome := by
  have hfails : ∀ errno : Errno, (mem.finishU32 ptr 0 errno.outcome).2 = errno.outcome :=
    outcome_finishU32 h.word 0
  obtain ⟨chunks, hchunks⟩ := h.readIovChunks
  obtain ⟨mem₁, hmem₁, -, -⟩ := h.writeU32 1
  unfold fdWrite writeReport
  cases w.openFile fd with
  | none =>
    dsimp only
    split
    · exact hfails .badf
    rw [hchunks]
    dsimp only
    rw [hmem₁]
    rfl
  | some file =>
    dsimp only
    cases file.kind with
    | directory => exact hfails .notcapable
    | file =>
      dsimp only
      split
      · exact hfails .notcapable
      rw [hchunks]
      dsimp only
      rw [hmem₁]
      rfl
    | stdio =>
      dsimp only
      unfold fdWriteStdio
      split
      · exact hfails .badf
      split
      · exact hfails .notcapable
      rw [hchunks]
      dsimp only
      rw [hmem₁]
      rfl
    | pipe =>
      obtain ⟨mem₀, hmem₀, hbuffer, -⟩ := h.writeU32 0
      obtain ⟨chunks, hchunks⟩ := hbuffer.readIovChunks
      unfold fdWritePipe
      rw [hmem₀]
      dsimp only
      split
      · rfl
      split
      · rfl
      split
      · rfl
      rw [hchunks]
      dsimp only
      split
      · rfl
      · exact outcome_finishU32 hbuffer.word 1 .success

/-! ### What a poll reports -/

/-- The event of a poll tells what a read does: its errno, and, if it is success, how many bytes it
delivers. It announces the end of the input exactly if the read reports it. -/
structure TellsRead (r : Readiness) (result : IoResult) (nreadPtr : Int) : Prop where
  errno : result.2.2 = r.error.outcome
  count : r.error = .success → result.2.1.readU32 nreadPtr = some r.nbytes
  hangup : r.flags = eventFdReadwriteHangup ↔ ReportsEof result nreadPtr

variable {result : IoResult} {report : Report} {file : OpenFile}

theorem reportsEof_iff (h : Returns result ptr report) :
    ReportsEof result ptr ↔ report.errno = .success ∧ report.count = 0 := by
  unfold ReportsEof
  rw [h.outcome, h.count, Option.some.injEq]
  exact and_congr_left fun _ => Errno.outcome_inj (b := .success)

/-- An event of an errno other than success. -/
theorem tellsRead_failed_iff (h : Returns result ptr report) {errno : Errno}
    (hne : errno ≠ .success) : TellsRead (.failed errno) result ptr ↔ report.errno = errno := by
  constructor
  · intro htells
    exact Errno.outcome_inj.1 (h.outcome.symm.trans htells.errno)
  · rintro rfl
    refine ⟨h.outcome, fun hsuccess => absurd hsuccess hne, ?_⟩
    rw [reportsEof_iff h]
    exact iff_of_false Nat.zero_ne_one fun hsuccess => hne hsuccess.1

/-- An event with a number of bytes. -/
theorem tellsRead_remaining_iff (h : Returns result ptr report) (nbytes : ℕ) (hangup : Prop)
    [Decidable hangup] :
    TellsRead (.remaining nbytes hangup) result ptr ↔
      report.errno = .success ∧ report.count = nbytes ∧ (hangup ↔ nbytes = 0) := by
  have hflag : (Readiness.remaining nbytes hangup).flags = eventFdReadwriteHangup ↔ hangup := by
    by_cases hp : hangup <;> simp [Readiness.remaining, hp, eventFdReadwriteHangup]
  constructor
  · intro htells
    have herrno : report.errno = .success :=
      Errno.outcome_inj.1 (h.outcome.symm.trans htells.errno)
    have hcount : report.count = nbytes :=
      Option.some.inj (h.count.symm.trans (htells.count rfl))
    refine ⟨herrno, hcount, ?_⟩
    rw [← hflag, htells.hangup, reportsEof_iff h, hcount]
    exact and_iff_right herrno
  · rintro ⟨herrno, hcount, hhangup⟩
    refine ⟨?_, fun _ => hcount ▸ h.count, ?_⟩
    · rw [h.outcome, herrno]
      rfl
    · rw [hflag, hhangup, reportsEof_iff h, hcount]
      exact (and_iff_right herrno).symm

/-- The descriptor is the wrong end of a pipe or an output stream. -/
def NotReadable (file : OpenFile) : Prop :=
  match file.kind with
  | .stdio stdioFd => stdioFd ≠ stdinFd
  | .pipe direction _ => direction ≠ .read
  | _ => False

/-- What has replaced standard input has the same to give, and the same end. -/
def GivesAsStdin (w : World) (file : OpenFile) (size : ℕ) : Prop :=
  match file.kind with
  | .stdio stdioFd => stdioFd = stdinFd ∧ hasRight file.rights rightFdRead = true
  | .pipe direction pipe =>
      direction = .read ∧ hasRight file.rights rightFdRead = true ∧
        ((w.host.pipes.get pipe).bytes = [] → (w.host.pipes.get pipe).writers = 0) ∧
          min (w.host.pipes.get pipe).bytes.length size = w.stdinRemaining
  | .directory .. => False
  | .file record _ offset =>
      min ((w.host.records.get record).bytes.length - w.host.offsets.get offset) size =
        w.stdinRemaining

/-- A pipe that can be read is not waiting for a writer, and a file is open for reading unless its
number is the one of the package root. -/
def ReadsAtOnce (w : World) (fd : Int) (file : OpenFile) : Prop :=
  match file.kind with
  | .pipe direction pipe =>
      direction = .read → hasRight file.rights rightFdRead = true →
        (w.host.pipes.get pipe).bytes = [] → (w.host.pipes.get pipe).writers = 0
  | .file .. => w.isDirectoryFd fd = true ∨ hasRight file.rights rightFdRead = true
  | _ => True

/-- When a read with a buffer of `size` bytes does what a poll of the number says. -/
def ReadsAsPolled (w : World) (fd size : ℕ) : Prop :=
  ∀ file, w.openFile fd = some file →
    if 2 ^ 31 ≤ fd then NotReadable file
    else if (fd : Int) = stdinFd then w.GivesAsStdin file size
    else w.ReadsAtOnce fd file

section

variable {ptr : Int} {size : ℕ} {result : IoResult} {fd : ℕ}

/-- Standard input tells what a read of something does if there is as much to read. -/
theorem tellsRead_stdin_iff (h : Returns result ptr report) :
    TellsRead w.stdinReadiness result ptr ↔
      report.errno = .success ∧ report.count = w.stdinRemaining := by
  refine (tellsRead_remaining_iff h _ _).trans ?_
  exact and_congr_right fun _ => and_iff_left Iff.rfl

theorem isDirectoryFd_stdin (hroot : ∀ fd, w.runtime.packageRootFd = some fd → firstFileFd ≤ fd) :
    w.isDirectoryFd stdinFd = (w.openFile stdinFd).any OpenFile.isOpenDirectory := by
  have hne : some stdinFd ≠ w.runtime.packageRootFd := by
    intro heq
    exact absurd (hroot stdinFd heq.symm) (by decide)
  have hworkspace : stdinFd ≠ workspaceFd := by decide
  have htmp : stdinFd ≠ tmpFd := by decide
  simp [isDirectoryFd, hne, hworkspace, htmp]

/-- A read of a replaced standard input returns what standard input would give. -/
theorem entry_givesAsStdin_iff {file : OpenFile}
    (hroot : ∀ fd, w.runtime.packageRootFd = some fd → firstFileFd ≤ fd)
    (hfile : w.openFile stdinFd = some file) (hsize : w.stdinRemaining ≤ size) :
    (w.readReport stdinFd size).errno = .success ∧
        (w.readReport stdinFd size).count = w.stdinRemaining ↔ w.GivesAsStdin file size := by
  have hdirectory := isDirectoryFd_stdin hroot
  have hstdin : (w.stdinReport size).errno = .success ∧
      (w.stdinReport size).count = w.stdinRemaining := ⟨rfl, min_eq_left hsize⟩
  rw [hfile, Option.any_some] at hdirectory
  unfold readReport GivesAsStdin
  rw [hfile]
  obtain ⟨kind, mount, path, rights, fdflags⟩ := file
  cases kind with
  | stdio stdioFd =>
    by_cases hfd : stdioFd = stdinFd
    · by_cases hright : hasRight rights rightFdRead = true
      · simp [hfd, hright, hstdin]
      · simp [hfd, hright]
    · simp [hfd]
  | pipe direction pipe =>
    by_cases hdirection : direction = .read
    · by_cases hright : hasRight rights rightFdRead = true
      · by_cases hempty : (w.host.pipes.get pipe).bytes = []
        · by_cases hwriters : (w.host.pipes.get pipe).writers = 0
          · simp [hdirection, hright, hempty, hwriters]
          · simp [hdirection, hright, hempty, hwriters, Nat.pos_of_ne_zero hwriters]
        · simp [hdirection, hright, hempty]
      · simp [hdirection, hright]
    · simp [hdirection]
  | directory => simp
  | file =>
    rw [hdirectory]
    simp [OpenFile.isOpenDirectory]

/-- A read of standard input. -/
theorem tellsRead_zero_iff (hroot : ∀ fd, w.runtime.packageRootFd = some fd → firstFileFd ≤ fd)
    (h : Returns result ptr (w.readReport stdinFd size)) (hsize : w.stdinRemaining ≤ size) :
    TellsRead (w.fdReadReadiness stdinFd) result ptr ↔
      ∀ file, w.openFile stdinFd = some file → w.GivesAsStdin file size := by
  rw [fdReadReadiness_stdin, tellsRead_stdin_iff h]
  cases hfile : w.openFile stdinFd with
  | none =>
    have hdirectory := isDirectoryFd_stdin hroot
    rw [hfile, Option.any_none] at hdirectory
    have hreport : w.readReport stdinFd size = w.stdinReport size := by
      unfold readReport
      rw [hfile]
      rw [hdirectory]
      rfl
    rw [hreport]
    refine iff_of_true ⟨rfl, min_eq_left hsize⟩ fun file hsome => ?_
    cases hsome
  | some file =>
    rw [entry_givesAsStdin_iff hroot hfile hsize]
    exact ⟨fun hgives file' heq => Option.some.inj heq ▸ hgives, fun hall => hall file rfl⟩

/-- A read through another number. -/
theorem tellsRead_number_iff {fd : Int} (hne : fd ≠ stdinFd)
    (h : Returns result ptr (w.readReport fd size))
    (hsize : max 1 (w.fdReadReadiness fd).nbytes ≤ size) :
    TellsRead (w.fdReadReadiness fd) result ptr ↔
      ∀ file, w.openFile fd = some file → w.ReadsAtOnce fd file := by
  have hall : ∀ {file : OpenFile}, (∀ file', some file = some file' → w.ReadsAtOnce fd file') ↔
      w.ReadsAtOnce fd file := fun {file} =>
    ⟨fun hall => hall file rfl, fun hfile file' heq => Option.some.inj heq ▸ hfile⟩
  unfold fdReadReadiness at hsize ⊢
  unfold readReport at h
  rw [if_neg hne] at hsize ⊢
  cases hfile : w.openFile fd with
  | none =>
    rw [hfile] at h
    dsimp only at h ⊢
    refine iff_of_true ?_ fun file hsome => by cases hsome
    split
    next hdirectory =>
      rw [if_pos hdirectory] at h
      exact (tellsRead_failed_iff h (by decide)).2 rfl
    next hdirectory =>
      rw [if_neg hdirectory, if_pos hne] at h
      exact (tellsRead_failed_iff h (by decide)).2 rfl
  | some file =>
    rw [hfile] at h hsize
    rw [hall]
    obtain ⟨kind, mount, path, rights, fdflags⟩ := file
    cases kind with
    | stdio stdioFd =>
      refine iff_of_true ?_ trivial
      dsimp only at h hsize ⊢
      by_cases hfd : stdioFd ≠ stdinFd
      · rw [if_pos hfd] at h ⊢
        exact (tellsRead_failed_iff h (by decide)).2 rfl
      · rw [if_neg hfd] at h hsize ⊢
        by_cases hright : hasRight rights rightFdRead = false
        · rw [if_pos hright] at h ⊢
          exact (tellsRead_failed_iff h (by decide)).2 rfl
        · rw [if_neg hright] at h hsize ⊢
          exact (tellsRead_stdin_iff h).2 ⟨rfl, min_eq_left ((le_max_right _ _).trans hsize)⟩
    | pipe direction pipe =>
      unfold ReadsAtOnce
      dsimp only at h hsize ⊢
      by_cases hdirection : direction ≠ .read
      · rw [if_pos hdirection] at h ⊢
        exact iff_of_true ((tellsRead_failed_iff h (by decide)).2 rfl) fun heq =>
          absurd heq hdirection
      · rw [if_neg hdirection] at h hsize ⊢
        by_cases hright : hasRight rights rightFdRead = false
        · rw [if_pos hright] at h ⊢
          refine iff_of_true ((tellsRead_failed_iff h (by decide)).2 rfl) fun _ htrue => ?_
          rw [hright] at htrue
          cases htrue
        · rw [if_neg hright] at h hsize ⊢
          have hsize := (le_max_right _ _).trans hsize
          rw [tellsRead_remaining_iff h]
          by_cases hempty : (w.host.pipes.get pipe).bytes = []
          · by_cases hwriters : (w.host.pipes.get pipe).writers = 0
            · simp [hempty, hwriters]
            · have hpos := Nat.pos_of_ne_zero hwriters
              simp only [not_not] at hdirection
              simp [hempty, hwriters, hpos, hdirection, Bool.not_eq_false _ ▸ hright]
          · have hmin : min (w.host.pipes.get pipe).bytes.length size =
                (w.host.pipes.get pipe).bytes.length := min_eq_left hsize
            simp [hempty, hmin]
    | directory => exact iff_of_true ((tellsRead_failed_iff h (by decide)).2 rfl) trivial
    | file =>
      unfold ReadsAtOnce
      dsimp only at h hsize ⊢
      by_cases hdirectory : w.isDirectoryFd fd = true
      · rw [if_pos hdirectory] at h ⊢
        exact iff_of_true ((tellsRead_failed_iff h (by decide)).2 rfl) (.inl hdirectory)
      · rw [if_neg hdirectory] at h hsize ⊢
        by_cases hright : hasRight rights rightFdRead = false
        · -- the read does not look at the rights of a file
          rw [if_pos hright]
          refine iff_of_false (fun htells => ?_) (by simp [hdirectory, hright])
          exact Errno.noConfusion ((tellsRead_failed_iff h (by decide)).1 htells)
        · rw [if_neg hright] at hsize ⊢
          refine iff_of_true ((tellsRead_remaining_iff h _ _).2 ⟨rfl, ?_, Iff.rfl⟩)
            (.inr (Bool.not_eq_false _ ▸ hright))
          exact min_eq_left ((le_max_right _ _).trans hsize)

/-- Nothing has a negative number. -/
theorem lookup_negative (hnumbered : w.Numbered)
    (hroot : ∀ fd', w.runtime.packageRootFd = some fd' → fd' = firstFileFd) {fd : Int}
    (hneg : fd < 0) : w.openFile fd = none ∧ w.isDirectoryFd fd = false := by
  have hfile : w.openFile fd = none := by
    cases hfile : w.openFile fd with
    | none => rfl
    | some file => exact absurd (hnumbered fd file hfile).nonneg (Int.not_le.2 hneg)
  have hpackage : some fd ≠ w.runtime.packageRootFd := by
    intro heq
    rw [hroot fd heq.symm] at hneg
    exact absurd hneg (by decide)
  have hworkspace : fd ≠ workspaceFd := by
    unfold workspaceFd
    omega
  have htmp : fd ≠ tmpFd := by
    unfold tmpFd
    omega
  refine ⟨hfile, ?_⟩
  simp [isDirectoryFd, hfile, hpackage, hworkspace, htmp]

/-- A number that arrives negative. -/
theorem tellsRead_negative_iff {fd : Int} (hlarge : 2 ^ 31 ≤ fd)
    (hroot : ∀ fd', w.runtime.packageRootFd = some fd' → fd' = firstFileFd)
    (h : Returns result ptr ⟨.badf, 0⟩) :
    TellsRead (w.fdReadReadiness fd) result ptr ↔
      ∀ file, w.openFile fd = some file → NotReadable file := by
  have hne : fd ≠ stdinFd := by
    unfold stdinFd
    omega
  have hbuiltin : ¬(fd = workspaceFd ∨ fd = tmpFd ∨ some fd = w.runtime.packageRootFd) := by
    rintro (rfl | rfl | heq)
    · exact absurd hlarge (by decide)
    · exact absurd hlarge (by decide)
    · rw [hroot fd heq.symm] at hlarge
      exact absurd hlarge (by decide)
  have hbadf : TellsRead (.failed .badf) result ptr ↔ Errno.badf = .badf :=
    tellsRead_failed_iff h (by decide)
  have hother : ∀ errno : Errno, errno ≠ .success → errno ≠ .badf →
      ¬TellsRead (.failed errno) result ptr := fun errno hne hbad htells =>
    hbad ((tellsRead_failed_iff h hne).1 htells).symm
  have hremaining : ∀ nbytes (hangup : Prop) [Decidable hangup],
      ¬TellsRead (.remaining nbytes hangup) result ptr := fun nbytes hangup _ htells =>
    Errno.noConfusion ((tellsRead_remaining_iff h nbytes hangup).1 htells).1
  unfold fdReadReadiness
  rw [if_neg hne]
  cases hfile : w.openFile fd with
  | none =>
    have hdirectory : w.isDirectoryFd fd = false := by
      simp only [not_or] at hbuiltin
      simp [isDirectoryFd, hfile, hbuiltin]
    rw [hdirectory]
    exact iff_of_true (hbadf.2 rfl) fun file hsome => by cases hsome
  | some file =>
    have hall : (∀ file', some file = some file' → NotReadable file') ↔ NotReadable file :=
      ⟨fun hall => hall file rfl, fun hfile file' heq => Option.some.inj heq ▸ hfile⟩
    rw [hall]
    obtain ⟨kind, mount, path, rights, fdflags⟩ := file
    cases kind with
    | stdio =>
      dsimp only [NotReadable]
      split
      next hfd => exact iff_of_true (hbadf.2 rfl) hfd
      next hfd =>
        refine iff_of_false ?_ hfd
        split
        · exact hother _ (by decide) (by decide)
        · exact hremaining _ _
    | pipe =>
      dsimp only [NotReadable]
      split
      next hdirection => exact iff_of_true (hbadf.2 rfl) hdirection
      next hdirection =>
        refine iff_of_false ?_ hdirection
        split
        · exact hother _ (by decide) (by decide)
        · exact hremaining _ _
    | directory => exact iff_of_false (hother _ (by decide) (by decide)) id
    | file =>
      refine iff_of_false ?_ id
      dsimp only
      split
      · exact hother _ (by decide) (by decide)
      split
      · exact hother _ (by decide) (by decide)
      · exact hremaining _ _

/-- When a poll of a number tells what a read of it does. -/
theorem tellsRead_iff (hnumbered : w.Numbered)
    (hroot : ∀ fd', w.runtime.packageRootFd = some fd' → fd' = firstFileFd) (hfd : fd < 2 ^ 32)
    (h : Returns result ptr (w.readReport (toI32 fd) size))
    (hsize : max 1 (w.fdReadReadiness fd).nbytes ≤ size) :
    TellsRead (w.fdReadReadiness fd) result ptr ↔ w.ReadsAsPolled fd size := by
  unfold ReadsAsPolled
  by_cases hlarge : 2 ^ 31 ≤ fd
  · have hreport : w.readReport (toI32 fd) size = ⟨.badf, 0⟩ := by
      have hneg := toI32_neg hlarge hfd
      obtain ⟨hfile, hdirectory⟩ := lookup_negative hnumbered hroot hneg
      have hstdin : toI32 fd ≠ stdinFd := by
        unfold stdinFd
        omega
      unfold readReport
      rw [hfile]
      rw [hdirectory, if_pos hstdin]
      rfl
    rw [hreport] at h
    simp only [hlarge, if_true]
    exact tellsRead_negative_iff (by omega) hroot h
  · rw [toI32_of_lt (by omega)] at h
    simp only [hlarge, if_false]
    by_cases hzero : (fd : Int) = stdinFd
    · simp only [hzero, if_true] at h hsize ⊢
      refine tellsRead_zero_iff (fun fd' hfd' => (hroot fd' hfd').ge) h ?_
      rw [fdReadReadiness_stdin] at hsize
      exact (le_max_right _ _).trans hsize
    · simp only [hzero, if_false]
      exact tellsRead_number_iff hzero h hsize

end

/-! ### Writing -/

/-- The descriptor is the wrong end of a pipe or standard input. -/
def NotWritable (file : OpenFile) : Prop :=
  match file.kind with
  | .stdio stdioFd => stdioFd ≠ stdoutFd ∧ stdioFd ≠ stderrFd
  | .pipe direction _ => direction ≠ .write
  | _ => False

/-- A pipe that is open for writing and is being read has room for one more byte. -/
def TakesByte (w : World) (file : OpenFile) : Prop :=
  match file.kind with
  | .pipe direction pipe =>
      direction = .write → hasRight file.rights rightFdWrite = true →
        0 < (w.host.pipes.get pipe).readers → (w.host.pipes.get pipe).bytes.length < pipeBufferLimit
  | _ => True

/-- When a write of a byte does what a poll of the number says. -/
def WritesAsPolled (w : World) (fd : ℕ) : Prop :=
  ∀ file, w.openFile fd = some file →
    if 2 ^ 31 ≤ fd then NotWritable file
    else if (fd : Int) = stdoutFd ∨ (fd : Int) = stderrFd then
      w.ReadyToWrite file ∧ w.TakesByte file
    else w.TakesByte file

/-- What a write through a descriptor returns. -/
theorem writeReport_of_openFile {fd : Int} (hfile : w.openFile fd = some file) :
    w.writeReport fd = (w.writeReadiness file).error ↔ w.TakesByte file := by
  unfold writeReport writeReadiness TakesByte
  rw [hfile]
  obtain ⟨kind, mount, path, rights, fdflags⟩ := file
  cases kind with
  | stdio =>
    dsimp only
    refine iff_of_true ?_ trivial
    split
    · rfl
    · cases hasRight rights rightFdWrite <;> rfl
  | pipe direction pipe =>
    by_cases hdirection : direction = .write
    · by_cases hright : hasRight rights rightFdWrite = true
      · by_cases hreaders : (w.host.pipes.get pipe).readers = 0
        · simp [hdirection, hright, hreaders, Readiness.failed]
        · have hpos := Nat.pos_of_ne_zero hreaders
          by_cases hroom : (w.host.pipes.get pipe).bytes.length < pipeBufferLimit
          · have hfits : ¬pipeBufferLimit < (w.host.pipes.get pipe).bytes.length + 1 := by omega
            simp [hdirection, hright, hreaders, hpos, hroom, hfits, Readiness.failed]
          · have hfull : pipeBufferLimit < (w.host.pipes.get pipe).bytes.length + 1 := by omega
            simp [hdirection, hright, hreaders, hpos, hroom, hfull, Readiness.failed]
      · simp [hdirection, hright, Readiness.failed]
    · simp [hdirection, Readiness.failed]
  | directory => exact iff_of_true rfl trivial
  | file =>
    dsimp only
    refine iff_of_true ?_ trivial
    generalize OpenFile.canWriteFile _ = writes
    cases writes <;> rfl

/-- A pipe without room. -/
theorem writeReport_of_not_takesByte {fd : Int} (hfile : w.openFile fd = some file)
    (h : ¬w.TakesByte file) : w.writeReport fd = .again := by
  unfold TakesByte at h
  unfold writeReport
  rw [hfile]
  split at h
  next direction pipe hkind =>
    simp only [not_forall, Nat.not_lt] at h
    obtain ⟨hdirection, hright, hreaders, hfull⟩ := h
    have hover : pipeBufferLimit < (w.host.pipes.get pipe).bytes.length + 1 := by omega
    simp [hkind, hdirection, hright, Nat.ne_of_gt hreaders, hover]
  · exact absurd trivial h

/-- A write subscription reports no bytes. -/
theorem writeReadiness_eq_failed (w : World) (file : OpenFile) :
    w.writeReadiness file = .failed (w.writeReadiness file).error := by
  unfold writeReadiness
  repeat' split
  all_goals rfl

theorem error_writeReadiness_eq_success_iff (w : World) (file : OpenFile) :
    (w.writeReadiness file).error = .success ↔ w.ReadyToWrite file := by
  rw [← writeReadiness_eq_success_iff]
  constructor
  · intro herror
    rw [writeReadiness_eq_failed, herror]
  · intro heq
    rw [heq]
    rfl

/-- A write through a descriptor succeeds. -/
theorem writeReport_eq_success_iff {fd : Int} (hfile : w.openFile fd = some file) :
    w.writeReport fd = .success ↔ w.ReadyToWrite file ∧ w.TakesByte file := by
  by_cases htakes : w.TakesByte file
  · rw [(writeReport_of_openFile hfile).2 htakes, error_writeReadiness_eq_success_iff]
    exact (and_iff_left htakes).symm
  · rw [writeReport_of_not_takesByte hfile htakes]
    exact iff_of_false Errno.noConfusion fun h => htakes h.2

/-- The wrong kind of descriptor for a write. -/
theorem error_writeReadiness_eq_badf_iff (w : World) (file : OpenFile) :
    (w.writeReadiness file).error = .badf ↔ NotWritable file := by
  obtain ⟨kind, mount, path, rights, fdflags⟩ := file
  unfold writeReadiness NotWritable
  cases kind with
  | stdio =>
    dsimp only
    split
    next hfd => exact iff_of_true rfl hfd
    next hfd =>
      refine iff_of_false ?_ hfd
      cases hasRight rights rightFdWrite <;> exact Errno.noConfusion
  | pipe direction pipe =>
    dsimp only
    split
    next hdirection => exact iff_of_true rfl hdirection
    next hdirection =>
      refine iff_of_false ?_ hdirection
      split
      · exact Errno.noConfusion
      split <;> exact Errno.noConfusion
  | directory => exact iff_of_false Errno.noConfusion id
  | file =>
    refine iff_of_false ?_ id
    generalize OpenFile.canWriteFile _ = writes
    cases writes <;> exact Errno.noConfusion

/-- When a poll of a number tells what a write of a byte does. -/
theorem writeReport_iff (hnumbered : w.Numbered)
    (hroot : ∀ fd', w.runtime.packageRootFd = some fd' → fd' = firstFileFd) {fd : ℕ}
    (hfd : fd < 2 ^ 32) :
    w.writeReport (toI32 fd) = (w.fdWriteReadiness fd).error ↔ w.WritesAsPolled fd := by
  unfold WritesAsPolled
  by_cases hlarge : 2 ^ 31 ≤ fd
  · have hneg := toI32_neg hlarge hfd
    have hreport : w.writeReport (toI32 fd) = .badf := by
      have houtput : toI32 fd ≠ stdoutFd ∧ toI32 fd ≠ stderrFd := by
        unfold stdoutFd stderrFd
        omega
      unfold writeReport
      rw [(lookup_negative hnumbered hroot hneg).1]
      exact if_pos houtput
    have hne : ¬((fd : Int) = stdoutFd ∨ (fd : Int) = stderrFd) := by
      unfold stdoutFd stderrFd
      omega
    simp only [hlarge, if_true]
    rw [hreport]
    cases hfile : w.openFile fd with
    | none =>
      unfold fdWriteReadiness
      rw [if_neg hne, hfile]
      exact iff_of_true rfl fun file hsome => by cases hsome
    | some file =>
      rw [fdWriteReadiness_eq hfile hne, eq_comm, error_writeReadiness_eq_badf_iff]
      exact ⟨fun h file' heq => Option.some.inj heq ▸ h, fun hall => hall file rfl⟩
  · rw [toI32_of_lt (by omega)]
    simp only [hlarge, if_false]
    by_cases houtput : (fd : Int) = stdoutFd ∨ (fd : Int) = stderrFd
    · simp only [houtput, if_true]
      rw [show w.fdWriteReadiness fd = .failed .success from if_pos houtput]
      change w.writeReport fd = .success ↔ _
      cases hfile : w.openFile fd with
      | none =>
        unfold writeReport
        rw [hfile]
        have hnot : ¬((fd : Int) ≠ stdoutFd ∧ (fd : Int) ≠ stderrFd) := by tauto
        exact iff_of_true (if_neg hnot) fun file hsome => by cases hsome
      | some file =>
        rw [writeReport_eq_success_iff hfile]
        exact ⟨fun h file' heq => Option.some.inj heq ▸ h, fun hall => hall file rfl⟩
    · simp only [houtput, if_false]
      cases hfile : w.openFile fd with
      | none =>
        unfold writeReport fdWriteReadiness
        rw [hfile, if_neg houtput]
        exact iff_of_true (if_pos (not_or.1 houtput)) fun file hsome => by cases hsome
      | some file =>
        rw [fdWriteReadiness_eq hfile houtput, writeReport_of_openFile hfile]
        exact ⟨fun h file' heq => Option.some.inj heq ▸ h, fun hall => hall file rfl⟩

end

/-! ### Events -/

def eventtypeFdRead : ℕ := 1

def eventtypeFdWrite : ℕ := 2

/-- The call has succeeded, and one of its events is about the number. -/
structure Reports (w : World) (mem : Memory)
    (subscriptionsPtr eventsPtr subscriptionsLen eventsUsedPtr : Int) (fd : ℕ) (event : PollEvent) :
    Prop where
  ok : (w.pollOneoff mem subscriptionsPtr eventsPtr subscriptionsLen eventsUsedPtr).2 = .ok ()
  event : ∃ i < (toUint32 subscriptionsLen).toNat,
    w.pollEvent mem ((toUint32 subscriptionsPtr).toNat + i * subscriptionSize) = some event ∧
      mem.readNumber ((toUint32 subscriptionsPtr).toNat + i * subscriptionSize + 16) 4 = fd

theorem readNumber_lt (mem : Memory) (start size : ℕ) :
    mem.readNumber start size < 2 ^ (8 * size) := by
  induction size with
  | zero => exact Nat.one_pos
  | succ size ih =>
    have hbyte : (mem.byte (start + size)).toNat + 1 ≤ 2 ^ 8 := (mem.byte (start + size)).toNat_lt
    have hsum : mem.readNumber start (size + 1) =
        mem.readNumber start size + (mem.byte (start + size)).toNat * 2 ^ (8 * size) := by
      simp [Memory.readNumber, List.range_succ]
    calc mem.readNumber start (size + 1)
        < 2 ^ (8 * size) + (mem.byte (start + size)).toNat * 2 ^ (8 * size) := by
          rw [hsum]
          exact Nat.add_lt_add_right ih _
      _ = ((mem.byte (start + size)).toNat + 1) * 2 ^ (8 * size) := by
          rw [Nat.add_mul, Nat.one_mul, Nat.add_comm]
      _ ≤ 2 ^ 8 * 2 ^ (8 * size) := Nat.mul_le_mul_right _ hbyte
      _ = 2 ^ (8 * (size + 1)) := by
          rw [← Nat.pow_add, Nat.mul_succ, Nat.add_comm]

variable {w : World} {mem : Memory}
  {subscriptionsPtr eventsPtr subscriptionsLen eventsUsedPtr : Int} {fd : ℕ} {event : PollEvent}

theorem Reports.lt
    (h : w.Reports mem subscriptionsPtr eventsPtr subscriptionsLen eventsUsedPtr fd event) :
    fd < 2 ^ 32 := by
  obtain ⟨i, -, -, rfl⟩ := h.event
  exact readNumber_lt _ _ 4

/-- The event is the readiness of its number. -/
theorem Reports.readiness
    (h : w.Reports mem subscriptionsPtr eventsPtr subscriptionsLen eventsUsedPtr fd event) :
    (event.type = eventtypeFdRead → event.readiness = w.fdReadReadiness fd) ∧
      (event.type = eventtypeFdWrite → event.readiness = w.fdWriteReadiness fd) := by
  obtain ⟨i, -, hevent, rfl⟩ := h.event
  unfold pollEvent at hevent
  dsimp only at hevent
  split at hevent
  next htype =>
    rw [← Option.some.inj hevent]
    exact ⟨fun hread => absurd (htype.symm.trans hread) (by decide),
      fun hwrite => absurd (htype.symm.trans hwrite) (by decide)⟩
  · split at hevent
    next htype =>
      rw [← Option.some.inj hevent]
      exact ⟨fun _ => rfl, fun hwrite => absurd (htype.symm.trans hwrite) (by decide)⟩
    · split at hevent
      next htype =>
        rw [← Option.some.inj hevent]
        exact ⟨fun hread => absurd (htype.symm.trans hread) (by decide), fun _ => rfl⟩
      · cases hevent

end World

namespace System

/-- In every reachable state an event of a poll tells what the next read or write of its number does
exactly if the two look at the same thing. -/
theorem pollTells_iff {snapshot : Option World.SnapshotTree} {files rootFiles : List PackageFile}
    {cwd : Option Text} {stdin : Bytes} {s : System}
    (hreach : Reach step (boot snapshot files rootFiles cwd stdin) s) {mem : Memory}
    {subscriptionsPtr eventsPtr subscriptionsLen eventsUsedPtr : Int} {fd : ℕ}
    {event : World.PollEvent}
    (hpoll : s.world.Reports mem subscriptionsPtr eventsPtr subscriptionsLen eventsUsedPtr fd event)
    {mem' : Memory} {iovsPtr iovsLen ptr : Int} :
    (event.type = World.eventtypeFdRead →
      ∀ size, IoBuffer mem' iovsPtr iovsLen ptr size → max 1 event.readiness.nbytes ≤ size →
        (World.TellsRead event.readiness (s.world.fdRead mem' (toI32 fd) iovsPtr iovsLen ptr) ptr ↔
          s.world.ReadsAsPolled fd size)) ∧
      (event.type = World.eventtypeFdWrite → IoBuffer mem' iovsPtr iovsLen ptr 1 →
        ((s.world.fdWrite mem' (toI32 fd) iovsPtr iovsLen ptr).2.2 = event.readiness.error.outcome ↔
          s.world.WritesAsPolled fd)) := by
  have htables := tables_of_reach hreach
  have hnumbered := htables.numbered.world
  have hroot : ∀ fd', s.world.runtime.packageRootFd = some fd' → fd' = firstFileFd := by
    intro fd' hfd'
    have hsame := htables.root s.runtime List.mem_cons_self
    rw [show s.runtime.packageRootFd = some fd' from hfd'] at hsame
    split at hsame
    next => exact Option.some.inj hsame
    next => cases hsame
  constructor
  · intro htype size hbuffer hsize
    rw [hpoll.readiness.1 htype] at hsize ⊢
    exact World.tellsRead_iff hnumbered hroot hpoll.lt (World.returns_fdRead hbuffer _) hsize
  · intro htype hbuffer
    rw [hpoll.readiness.2 htype, World.outcome_fdWrite hbuffer, Errno.outcome_inj]
    exact World.writeReport_iff hnumbered hroot hpoll.lt

/-- A memory with one subscription for reads of a number, at 0. -/
def pollMemory (fd : UInt8) : Memory :=
  ⟨256, fun i => if i = 8 then 1 else if i = 16 then fd else 0⟩

theorem ioBuffer_iovMemory : IoBuffer iovMemory 8 1 24 1 where
  table := ⟨[⟨0, 1⟩], by decide, rfl, by decide⟩
  small := by decide
  word := by decide
  apart := by decide

/-- A byte in a pipe is announced and delivered. -/
theorem pollTells_onePipe :
    World.TellsRead ⟨.success, 0, 1⟩ (onePipe.world.fdRead iovMemory (toI32 5) 8 1 24) 24 := by
  have hreports : onePipe.world.Reports (pollMemory 5) 0 64 1 128 5 ⟨⟨.success, 0, 1⟩, 1, 0⟩ :=
    ⟨by decide, 0, by decide, by decide, by decide⟩
  refine ((pollTells_iff reach_onePipe hreports).1 rfl 1 ioBuffer_iovMemory (by decide)).2 ?_
  intro file hfile
  obtain rfl : file = World.pipeEnd .read 0 := by
    have hget : onePipe.world.openFile 5 = some (World.pipeEnd .read 0) := by decide
    exact Option.some.inj (hfile.symm.trans hget)
  exact fun _ _ hempty => absurd hempty (by decide)

/-- The read end of a pipe is moved to standard input. -/
def pipedStdin : System := newPipe.step (.call (.fdDup2 iovMemory 5 0 0 32))

/-- A poll announces the end of standard input, and the read that follows has to be tried again. -/
theorem not_pollTells :
    Reach step (boot none [] [] none []) pipedStdin ∧
      pipedStdin.world.Reports (pollMemory 0) 0 64 1 128 0 ⟨⟨.success, 1, 0⟩, 1, 0⟩ ∧
        IoBuffer iovMemory 8 1 24 1 ∧
          ¬World.TellsRead ⟨.success, 1, 0⟩
            (pipedStdin.world.fdRead iovMemory (toI32 0) 8 1 24) 24 := by
  refine ⟨(reach_step _ _ _).trans (reach_step _ _ _),
    ⟨by decide, 0, by decide, by decide, by decide⟩,
    ioBuffer_iovMemory, fun h => ?_⟩
  have hagain : (pipedStdin.world.fdRead iovMemory (toI32 0) 8 1 24).2.2 =
      .error (.errno .again) := by decide
  rw [h.errno] at hagain
  cases hagain

end System

end WasmHost

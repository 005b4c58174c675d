import WasmHost.Wasi.BufferBounds

/-!
# Exceptions of reads and writes

When a read or a write raises an exception although its pointers lie inside the memory, for each of
the objects that can be behind a descriptor. `World.readSource` and `World.writeTarget` say what a
call finds there, if it gets as far as reading its table.

* `World.fdReadWithin_throws_iff`, `World.fdPread_throws_iff`: reads.
* `World.fdWriteWithin_throws_iff`, `World.fdPwriteWithin_throws_iff`: writes.
-/

namespace WasmHost

/-- The memory after the count of a transfer is set to zero. -/
def Memory.clearU32 (mem : Memory) (ptr : Int) : Memory := (mem.writeU32 ptr 0).getD mem

theorem Memory.byteLength_clearU32 (mem : Memory) (ptr : Int) :
    (mem.clearU32 ptr).byteLength = mem.byteLength := by
  unfold clearU32
  cases h : mem.writeU32 ptr 0 with
  | none => rfl
  | some => exact mem.byteLength_of_writeU32 h

namespace World

variable (w : World) (allocates : ℕ → Bool)

/-! ### Reading -/

/-- What a read finds behind a descriptor. -/
structure ReadSource where
  input : Bytes
  /-- The count is set to zero before the table is read. -/
  clears : Bool
  /-- The bytes that are left are copied, as those of a pipe are. -/
  copies : Bool

/-- What `fd_read` reads; `none`: it ends before it reads the table. -/
def readSource (fd : Int) : Option ReadSource :=
  let stdin := w.runtime.stdin.drop w.runtime.stdinOffset
  match w.openFile fd with
  | none => if w.isDirectoryFd fd = false ∧ fd = stdinFd then some ⟨stdin, false, false⟩ else none
  | some file =>
      match file.kind with
      | .pipe direction pipe =>
          if direction = .read ∧ hasRight file.rights rightFdRead = true ∧
              (w.host.pipes.get pipe).bytes ≠ [] then
            some ⟨(w.host.pipes.get pipe).bytes, true, true⟩
          else none
      | .stdio stdioFd =>
          if stdioFd = stdinFd ∧ hasRight file.rights rightFdRead = true then
            some ⟨stdin, true, false⟩
          else none
      | .directory .. => none
      | .file record _ offset =>
          if w.isDirectoryFd fd = false then
            some ⟨(w.host.records.get record).bytes.drop (w.host.offsets.get offset), false, false⟩
          else none

/-- What `fd_pread` reads; `none`: it ends before it reads the table. -/
def preadSource (fd offset : Int) : Option Bytes :=
  if w.isDirectoryFd fd = true then none
  else
    match w.openFile fd with
    | none => none
    | some file =>
        match file.kind, resolveFileSize offset with
        | .file record _ _, .ok start =>
            if file.canReadFile = true then some ((w.host.records.get record).bytes.drop start)
            else none
        | _, _ => none

/-- Reading from a source throws. -/
def ReadThrows (mem : Memory) (iovsPtr iovsLen nreadPtr : Int) (source : ReadSource) : Prop :=
  let cleared := if source.clears = true then mem.clearU32 nreadPtr else mem
  ScatterThrows cleared source.input iovsPtr iovsLen ∨
    source.copies = true ∧
      allocates (source.input.length -
        ((readBuffers cleared source.input iovsPtr iovsLen).map fun b => b.2.length).sum) = false

/-! ### Writing -/

/-- What is behind a descriptor that is written to: a stream, a pipe with this many bytes in it, or
a file of this length at an offset. -/
inductive WriteTarget
  | stream
  | pipe (length : ℕ)
  | file (length offset : ℕ)

/-- Where `fd_write` writes; `none`: it ends before it reads the table. -/
def writeTarget (fd : Int) : Option WriteTarget :=
  match w.openFile fd with
  | none => if fd = stdoutFd ∨ fd = stderrFd then some .stream else none
  | some file =>
      match file.kind with
      | .pipe direction pipe =>
          if direction = .write ∧ hasRight file.rights rightFdWrite = true ∧
              (w.host.pipes.get pipe).readers ≠ 0 then
            some (.pipe (w.host.pipes.get pipe).bytes.length)
          else none
      | .stdio stdioFd =>
          if (stdioFd = stdoutFd ∨ stdioFd = stderrFd) ∧
            hasRight file.rights rightFdWrite = true then
            some .stream
          else none
      | .directory .. => none
      | .file record _ offset =>
          if file.canWriteFile = true then
            some (.file (w.host.records.get record).bytes.length
              (if hasFlag file.fdflags fdflagsAppend then (w.host.records.get record).bytes.length
               else w.host.offsets.get offset))
          else none

/-- The length of the file that `fd_pwrite` writes to and the offset it starts at; `none`: it ends
before it reads the table. -/
def pwriteTarget (fd offset : Int) : Option (ℕ × ℕ) :=
  if w.isDirectoryFd fd = true then none
  else
    match w.openFile fd with
    | none => none
    | some file =>
        match file.kind, resolveFileSize offset with
        | .file record _ _, .ok start =>
            if file.canWriteFile = true then some ((w.host.records.get record).bytes.length, start)
            else none
        | _, _ => none

/-- Writing to a target throws. -/
def WriteThrows (mem : Memory) (iovsPtr iovsLen nwrittenPtr : Int) : WriteTarget → Prop
  | .stream => GatherThrows allocates mem iovsPtr iovsLen
  | .pipe length =>
      let cleared := mem.clearU32 nwrittenPtr
      let needed := length + declaredLength cleared iovsPtr iovsLen
      GatherThrows allocates cleared iovsPtr iovsLen ∨
        needed ≤ pipeBufferLimit ∧ allocates needed = false
  | .file length offset =>
      GatherThrows allocates mem iovsPtr iovsLen ∨
        GrowthRefused allocates length offset (gatheredChunks mem iovsPtr iovsLen)

/-- Writing to a file at an offset of the call throws. -/
def PwriteThrows (mem : Memory) (iovsPtr iovsLen nwrittenPtr : Int) (target : ℕ × ℕ) : Prop :=
  let cleared := mem.clearU32 nwrittenPtr
  GatherThrows allocates cleared iovsPtr iovsLen ∨
    (∃ last, resolveFileRange target.2 (declaredLength cleared iovsPtr iovsLen) = .ok last) ∧
      GrowthRefused allocates target.1 target.2 (gatheredChunks cleared iovsPtr iovsLen)

section

variable {w : World} {allocates : ℕ → Bool} {mem : Memory}

/-! ### Reads -/

variable {ptr nreadPtr nwrittenPtr : Int}

theorem writeU32_zero (h : mem.Inside ptr 4) (hptr : ¬ptr < 0) :
    mem.writeU32 ptr 0 = some (mem.clearU32 ptr) := by
  unfold Memory.clearU32
  cases hwrite : mem.writeU32 ptr 0 with
  | none => exact absurd ((Memory.writeU32_eq_none_iff h 0).1 hwrite) hptr
  | some => rfl

theorem inside_clearU32 {size : ℕ} (ptr' : Int) (h : mem.Inside ptr size) :
    (mem.clearU32 ptr').Inside ptr size := h.congr (mem.byteLength_clearU32 ptr')

variable {iovsPtr iovsLen : Int}

theorem readStdin_throws_iff (htable : TableInside mem iovsPtr iovsLen)
    (hptr : mem.Inside nreadPtr 4) :
    (w.readStdin mem iovsPtr iovsLen nreadPtr).2.2 = .error .throws ↔
      nreadPtr < 0 ∨
        ScatterThrows mem (w.runtime.stdin.drop w.runtime.stdinOffset) iovsPtr iovsLen := by
  unfold readStdin
  rw [← readIntoIovs_eq_none_iff htable]
  cases hread : readIntoIovs mem w.runtime.stdin w.runtime.stdinOffset iovsPtr iovsLen with
  | none => simp
  | some s => simpa using finishU32_readIntoIovs_throws_iff hptr hread s.total

theorem readOpenFile_throws_iff (htable : TableInside mem iovsPtr iovsLen)
    (hptr : mem.Inside nreadPtr 4) (record offset : ℕ) :
    (w.readOpenFile mem record offset iovsPtr iovsLen nreadPtr).2.2 = .error .throws ↔
      nreadPtr < 0 ∨ ScatterThrows mem
        ((w.host.records.get record).bytes.drop (w.host.offsets.get offset)) iovsPtr iovsLen := by
  unfold readOpenFile
  rw [← readIntoIovs_eq_none_iff htable]
  cases hread : readIntoIovs mem (w.host.records.get record).bytes (w.host.offsets.get offset)
      iovsPtr iovsLen with
  | none => simp
  | some s => simpa using finishU32_readIntoIovs_throws_iff hptr hread s.total

theorem fdReadStdio_throws_iff (allocates : ℕ → Bool) (htable : TableInside mem iovsPtr iovsLen)
    (hptr : mem.Inside nreadPtr 4) (file : OpenFile) (stdioFd : Int) :
    (w.fdReadStdio mem file stdioFd iovsPtr iovsLen nreadPtr).2.2 = .error .throws ↔
      nreadPtr < 0 ∨ (stdioFd = stdinFd ∧ hasRight file.rights rightFdRead = true) ∧
        ReadThrows allocates mem iovsPtr iovsLen nreadPtr
          ⟨w.runtime.stdin.drop w.runtime.stdinOffset, true, false⟩ := by
  unfold fdReadStdio
  by_cases hneg : nreadPtr < 0
  · rw [(Memory.writeU32_eq_none_iff hptr 0).2 hneg]
    simp [hneg]
  rw [writeU32_zero hptr hneg]
  dsimp only
  split
  next hstdio => simp [hneg, hstdio]
  split
  next hright => simp [hneg, hright]
  next hstdio hright =>
    rw [readStdin_throws_iff (inside_clearU32 _ htable) (inside_clearU32 _ hptr)]
    simp [hneg, not_not.1 hstdio, Bool.not_eq_false _ ▸ hright, ReadThrows]

theorem fdReadPipeWithin_throws_iff (htable : TableInside mem iovsPtr iovsLen)
    (hptr : mem.Inside nreadPtr 4) (file : OpenFile) (direction : Direction) (pipe : ℕ) :
    (w.fdReadPipeWithin allocates mem file direction pipe iovsPtr iovsLen nreadPtr).2.2 =
        .error .throws ↔
      nreadPtr < 0 ∨ (direction = .read ∧ hasRight file.rights rightFdRead = true ∧
          (w.host.pipes.get pipe).bytes ≠ []) ∧
        ReadThrows allocates mem iovsPtr iovsLen nreadPtr
          ⟨(w.host.pipes.get pipe).bytes, true, true⟩ := by
  unfold fdReadPipeWithin
  by_cases hneg : nreadPtr < 0
  · rw [(Memory.writeU32_eq_none_iff hptr 0).2 hneg]
    simp [hneg]
  rw [writeU32_zero hptr hneg]
  dsimp only
  split
  next hdirection => simp [hneg, hdirection]
  split
  next hright => simp [hneg, hright]
  split
  next hempty =>
    split <;> simp [hneg, hempty]
  next hdirection hright hempty =>
    have hmay : direction = .read ∧ hasRight file.rights rightFdRead = true ∧
        (w.host.pipes.get pipe).bytes ≠ [] :=
      ⟨not_not.1 hdirection, by simpa using hright, hempty⟩
    have hnone : readIntoIovs (mem.clearU32 nreadPtr) (w.host.pipes.get pipe).bytes 0 iovsPtr
        iovsLen = none ↔ _ := readIntoIovs_eq_none_iff (inside_clearU32 nreadPtr htable)
    rw [List.drop_zero] at hnone
    rw [or_iff_right hneg, and_iff_right hmay]
    simp only [ReadThrows, if_true, true_and, ← hnone]
    cases hread : readIntoIovs (mem.clearU32 nreadPtr) (w.host.pipes.get pipe).bytes 0 iovsPtr
        iovsLen with
    | none => simp
    | some s =>
      -- what is left of the pipe is copied before the count is stored
      rw [← total_of_readIntoIovs (inside_clearU32 _ htable) hread]
      dsimp only
      split
      next hrefused => simp [hrefused]
      next hgranted =>
        rw [finishU32_readIntoIovs_throws_iff (inside_clearU32 _ hptr) hread]
        simp [hneg, hgranted]

theorem fdReadWithin_throws_iff (htable : TableInside mem iovsPtr iovsLen)
    (hptr : mem.Inside nreadPtr 4) (fd : Int) :
    (w.fdReadWithin allocates mem fd iovsPtr iovsLen nreadPtr).2.2 = .error .throws ↔
      nreadPtr < 0 ∨ ∃ source ∈ w.readSource fd,
        ReadThrows allocates mem iovsPtr iovsLen nreadPtr source := by
  -- a call that only stores the count
  have hrefused : ∀ errno, (mem.finishU32 nreadPtr 0 (.error (.errno errno))).2 = .error .throws ↔
      nreadPtr < 0 := fun errno => by
    rw [Memory.finishU32_throws_iff hptr, or_iff_left (by simp)]
  unfold fdReadWithin readSource
  cases hopen : w.openFile fd with
  | none =>
    simp only [fdRead, hopen]
    by_cases hdirectory : w.isDirectoryFd fd = true
    · simp [hdirectory, hrefused]
    by_cases hstdin : fd = stdinFd
    · rw [if_neg hdirectory, if_neg (not_not.2 hstdin), readStdin_throws_iff htable hptr,
        if_pos ⟨by simpa using hdirectory, hstdin⟩]
      simp [ReadThrows]
    · simp [hdirectory, hstdin, hrefused]
  | some file =>
    obtain ⟨kind, mount, path, rights, fdflags⟩ := file
    cases kind with
    | pipe =>
      dsimp only
      rw [fdReadPipeWithin_throws_iff htable hptr]
      split
      next hmay => simp [hmay]
      next hmay => simp [hmay]
    | stdio =>
      simp only [fdRead, hopen]
      rw [fdReadStdio_throws_iff allocates htable hptr]
      split
      next hmay => simp [hmay]
      next hmay => simp [hmay]
    | directory => simp [fdRead, hopen, hrefused]
    | file =>
      simp only [fdRead, hopen]
      by_cases hdirectory : w.isDirectoryFd fd = true
      · simp [hdirectory, hrefused]
      · rw [if_neg hdirectory, readOpenFile_throws_iff htable hptr,
          if_pos (by simpa using hdirectory)]
        simp [ReadThrows]

theorem fdPread_throws_iff (htable : TableInside mem iovsPtr iovsLen) (hptr : mem.Inside nreadPtr 4)
    (fd offset : Int) :
    (w.fdPread mem fd iovsPtr iovsLen offset nreadPtr).2.2 = .error .throws ↔
      nreadPtr < 0 ∨ ∃ input ∈ w.preadSource fd offset,
        ScatterThrows (mem.clearU32 nreadPtr) input iovsPtr iovsLen := by
  unfold fdPread preadSource
  by_cases hneg : nreadPtr < 0
  · rw [(Memory.writeU32_eq_none_iff hptr 0).2 hneg]
    simp [hneg]
  rw [writeU32_zero hptr hneg, or_iff_right hneg]
  dsimp only
  by_cases hdirectory : w.isDirectoryFd fd = true
  · simp [hdirectory]
  rw [if_neg hdirectory, if_neg hdirectory]
  cases w.openFile fd with
  | none => simp
  | some file =>
    obtain ⟨kind, mount, path, rights, fdflags⟩ := file
    cases kind with
    | pipe | stdio | directory => simp
    | file record writable position =>
      dsimp only
      cases resolveFileSize offset with
      | error => split <;> simp
      | ok start =>
        dsimp only
        split
        next hread => simp [hread]
        next hread =>
          rw [if_pos (by simpa using hread)]
          cases htotal :
            readIntoIovs (mem.clearU32 nreadPtr) (w.host.records.get record).bytes start
              iovsPtr iovsLen with
          | none => simpa using (readIntoIovs_eq_none_iff (inside_clearU32 _ htable)).1 htotal
          | some s =>
            rw [finishU32_readIntoIovs_throws_iff (inside_clearU32 _ hptr) htotal]
            have hnot := mt (readIntoIovs_eq_none_iff (inside_clearU32 _ htable)).2
              (Option.ne_none_iff_exists'.2 ⟨s, htotal⟩)
            simpa [hneg] using hnot

/-! ### Writes -/

theorem writeOpenFileAtWithin_eq_none_iff (file : OpenFile) (record : ℕ) (chunks : List Bytes)
    (offset : ℕ) :
    (w.writeOpenFileAtWithin allocates file record chunks offset).2 = none ↔
      GrowthRefused allocates (w.host.records.get record).bytes.length offset chunks := by
  have hloop := writeChunksWithin_isError_iff allocates
    ⟨(w.host.records.get record).bytes, offset, false⟩ chunks
  unfold writeOpenFileAtWithin
  rw [← hloop]
  split
  next loop heq => exact iff_of_true rfl ⟨loop, heq⟩
  next loop heq => simp [heq]

theorem writeOpenFileWithin_throws_iff (file : OpenFile) (record offset : ℕ) (chunks : List Bytes) :
    (w.writeOpenFileWithin allocates file record offset chunks).2 = .error .throws ↔
      GrowthRefused allocates (w.host.records.get record).bytes.length
        (if hasFlag file.fdflags fdflagsAppend then (w.host.records.get record).bytes.length
         else w.host.offsets.get offset) chunks := by
  rw [← writeOpenFileAtWithin_eq_none_iff file record chunks]
  unfold writeOpenFileWithin
  dsimp only
  split
  next w' offset' heq => simp [heq]
  next w' heq => simp [heq]

/-- Whether a gather goes through, and what it returns. -/
theorem gather_cases (allocates : ℕ → Bool) (htable : TableInside mem iovsPtr iovsLen) :
    (readIovChunksWithin allocates mem iovsPtr iovsLen = none ∧
        GatherThrows allocates mem iovsPtr iovsLen) ∨
      (readIovChunksWithin allocates mem iovsPtr iovsLen =
          some ⟨gatheredChunks mem iovsPtr iovsLen, declaredLength mem iovsPtr iovsLen⟩ ∧
        ¬GatherThrows allocates mem iovsPtr iovsLen) := by
  have hnone : readIovChunksWithin allocates mem iovsPtr iovsLen = none ↔ _ :=
    readIovChunksWithin_eq_none_iff htable
  cases hgather : readIovChunksWithin allocates mem iovsPtr iovsLen with
  | none => exact .inl ⟨rfl, hnone.1 hgather⟩
  | some =>
    refine .inr ⟨congrArg some (readIovChunksWithin_eq_some hgather), fun hthrows => ?_⟩
    rw [hnone.2 hthrows] at hgather
    cases hgather

/-- Whether a count is stored. -/
theorem count_cases (hptr : mem.Inside ptr 4) (value : ℕ) :
    (mem.writeU32 ptr value = none ∧ ptr < 0) ∨
      ∃ mem', mem.writeU32 ptr value = some mem' ∧ ¬ptr < 0 := by
  have hnone := Memory.writeU32_eq_none_iff hptr value
  cases hcount : mem.writeU32 ptr value with
  | none => exact .inl ⟨rfl, hnone.1 hcount⟩
  | some mem' =>
    refine .inr ⟨mem', rfl, fun hneg => ?_⟩
    rw [hnone.2 hneg] at hcount
    cases hcount

variable (htable : TableInside mem iovsPtr iovsLen)
include htable

theorem fdWriteStdioWithin_throws_iff
    (hptr : mem.Inside nwrittenPtr 4) (file : OpenFile) (stdioFd : Int) :
    (w.fdWriteStdioWithin allocates mem file stdioFd iovsPtr iovsLen nwrittenPtr).2.2 =
        .error .throws ↔
      nwrittenPtr < 0 ∨
        ((stdioFd = stdoutFd ∨ stdioFd = stderrFd) ∧ hasRight file.rights rightFdWrite = true) ∧
          GatherThrows allocates mem iovsPtr iovsLen := by
  unfold fdWriteStdioWithin
  split
  next hstdio =>
    rw [Memory.finishU32_throws_iff hptr]
    simp [hstdio.1, hstdio.2]
  split
  next hright =>
    rw [Memory.finishU32_throws_iff hptr]
    simp [hright]
  next hstdio hright =>
    have hmay :
        (stdioFd = stdoutFd ∨ stdioFd = stderrFd) ∧ hasRight file.rights rightFdWrite = true :=
      ⟨by tauto, by simpa using hright⟩
    rw [and_iff_right hmay]
    rcases gather_cases allocates htable with ⟨hgather, hthrows⟩ | ⟨hgather, hthrows⟩
    · simp [hgather, hthrows]
    rcases count_cases hptr (declaredLength mem iovsPtr iovsLen) with
      ⟨hcount, hneg⟩ | ⟨mem', hcount, hneg⟩
    · simp [hgather, hcount, hneg]
    · simp [hgather, hcount, hneg, hthrows]

theorem fdWritePipeWithin_throws_iff
    (hptr : mem.Inside nwrittenPtr 4) (file : OpenFile) (direction : Direction) (pipe : ℕ) :
    (w.fdWritePipeWithin allocates mem file direction pipe iovsPtr iovsLen nwrittenPtr).2.2 =
        .error .throws ↔
      nwrittenPtr < 0 ∨ (direction = .write ∧ hasRight file.rights rightFdWrite = true ∧
          (w.host.pipes.get pipe).readers ≠ 0) ∧
        WriteThrows allocates mem iovsPtr iovsLen nwrittenPtr
          (.pipe (w.host.pipes.get pipe).bytes.length) := by
  unfold fdWritePipeWithin
  by_cases hneg : nwrittenPtr < 0
  · rw [(Memory.writeU32_eq_none_iff hptr 0).2 hneg]
    simp [hneg]
  rw [writeU32_zero hptr hneg]
  dsimp only
  split
  next hdirection => simp [hneg, hdirection]
  split
  next hright => simp [hneg, hright]
  split
  next hreaders => simp [hneg, hreaders]
  next hdirection hright hreaders =>
    have hmay : direction = .write ∧ hasRight file.rights rightFdWrite = true ∧
        (w.host.pipes.get pipe).readers ≠ 0 :=
      ⟨not_not.1 hdirection, by simpa using hright, hreaders⟩
    rw [or_iff_right hneg, and_iff_right hmay, WriteThrows]
    rcases gather_cases allocates (inside_clearU32 nwrittenPtr htable) with
      ⟨hgather, hthrows⟩ | ⟨hgather, hthrows⟩
    · rw [hgather]
      exact iff_of_true rfl (.inl hthrows)
    rw [hgather, or_iff_right hthrows]
    dsimp only
    split
    next hfull => simp [Nat.not_le.2 hfull]
    split
    next hfits hrefused => exact iff_of_true rfl ⟨Nat.not_lt.1 hfits, hrefused⟩
    next hfits hgranted =>
      rw [Memory.finishU32_throws_iff (inside_clearU32 _ hptr)]
      simp [hneg, hgranted]

theorem fdWriteWithin_throws_iff (hptr : mem.Inside nwrittenPtr 4) (fd : Int) :
    (w.fdWriteWithin allocates mem fd iovsPtr iovsLen nwrittenPtr).2.2 = .error .throws ↔
      nwrittenPtr < 0 ∨ ∃ target ∈ w.writeTarget fd,
        WriteThrows allocates mem iovsPtr iovsLen nwrittenPtr target := by
  have hrefused : ∀ errno, (mem.finishU32 nwrittenPtr 0 (.error (.errno errno))).2 =
      .error .throws ↔ nwrittenPtr < 0 := fun errno => by
    rw [Memory.finishU32_throws_iff hptr, or_iff_left (by simp)]
  have hcounts := count_cases hptr (declaredLength mem iovsPtr iovsLen)
  unfold fdWriteWithin writeTarget
  cases w.openFile fd with
  | none =>
    dsimp only
    split
    next hstdio => simp [hstdio.1, hstdio.2, hrefused]
    next hstdio =>
      rw [if_pos (by tauto)]
      rcases gather_cases allocates htable with ⟨hgather, hthrows⟩ | ⟨hgather, hthrows⟩
      · simp [hgather, hthrows, WriteThrows]
      rcases hcounts with ⟨hcount, hneg⟩ | ⟨mem', hcount, hneg⟩
      · simp [hgather, hcount, hneg]
      · simp [hgather, hcount, hneg, hthrows, WriteThrows]
  | some file =>
    obtain ⟨kind, mount, path, rights, fdflags⟩ := file
    cases kind with
    | pipe =>
      dsimp only
      rw [fdWritePipeWithin_throws_iff htable hptr]
      split
      next hmay => simp [hmay]
      next hmay => simp [hmay]
    | stdio =>
      dsimp only
      rw [fdWriteStdioWithin_throws_iff htable hptr]
      split
      next hmay => simp [hmay, WriteThrows]
      next hmay => simp [hmay]
    | directory => simp [hrefused]
    | file =>
      dsimp only
      split
      next hwrite => simp [hwrite, hrefused]
      next hwrite =>
        rw [if_pos (by simpa using hwrite)]
        rcases gather_cases allocates htable with ⟨hgather, hthrows⟩ | ⟨hgather, hthrows⟩
        · simp [hgather, hthrows, WriteThrows]
        rcases hcounts with ⟨hcount, hneg⟩ | ⟨mem', hcount, hneg⟩
        · simp [hgather, hcount, hneg]
        · -- the count has been stored when the file grows
          simp [hgather, hcount, hneg, hthrows, WriteThrows, writeOpenFileWithin_throws_iff]

theorem fdPwriteWithin_throws_iff (hptr : mem.Inside nwrittenPtr 4) (fd offset : Int) :
    (w.fdPwriteWithin allocates mem fd iovsPtr iovsLen offset nwrittenPtr).2.2 = .error .throws ↔
      nwrittenPtr < 0 ∨ ∃ target ∈ w.pwriteTarget fd offset,
        PwriteThrows allocates mem iovsPtr iovsLen nwrittenPtr target := by
  unfold fdPwriteWithin pwriteTarget
  by_cases hneg : nwrittenPtr < 0
  · rw [(Memory.writeU32_eq_none_iff hptr 0).2 hneg]
    simp [hneg]
  rw [writeU32_zero hptr hneg, or_iff_right hneg]
  dsimp only
  by_cases hdirectory : w.isDirectoryFd fd = true
  · simp [hdirectory]
  rw [if_neg hdirectory, if_neg hdirectory]
  cases w.openFile fd with
  | none => simp
  | some file =>
    obtain ⟨kind, mount, path, rights, fdflags⟩ := file
    cases kind with
    | pipe | stdio | directory => simp
    | file record writable position =>
      dsimp only
      cases resolveFileSize offset with
      | error => split <;> simp
      | ok start =>
        dsimp only
        split
        next hwrite => simp [hwrite]
        next hwrite =>
          rw [if_pos (by simpa using hwrite)]
          simp only [Option.mem_some_iff, exists_eq_left', PwriteThrows]
          rcases gather_cases allocates (inside_clearU32 nwrittenPtr htable) with
            ⟨hgather, hthrows⟩ | ⟨hgather, hthrows⟩
          · simp [hgather, hthrows]
          rw [hgather, or_iff_right hthrows]
          dsimp only
          cases hrange : resolveFileRange start
              (declaredLength (mem.clearU32 nwrittenPtr) iovsPtr iovsLen) with
          | error errno => simp
          | ok last =>
            dsimp only
            rw [← writeOpenFileAtWithin_eq_none_iff
              ⟨.file record writable position, mount, path, rights, fdflags⟩]
            split
            next w' heq => simp [heq]
            next w' offset' heq =>
              rw [Memory.finishU32_throws_iff (inside_clearU32 _ hptr)]
              simp [hneg, heq]

end

end World

end WasmHost

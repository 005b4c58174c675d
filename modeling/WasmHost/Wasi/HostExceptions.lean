import WasmHost.Wasi.PipeRights
import WasmHost.Wasi.TransferExceptions

/-!
# Exceptions of the host

Which calls of the descriptor imports raise an exception although their pointers lie inside the
memory. `World.Crashes` reads it off the arguments, the descriptor table and the lengths of buffers
that the host grants:

* `fd_seek` from the end of a directory reads the record that a directory does not have;
* a result at an address from `2 ^ 31` on is stored at a negative one;
* a buffer of a read lies outside the memory;
* a copy, a file or the content of a pipe needs more bytes than the host grants.

* `System.returnsErrno_iff`: in every reachable state these are all.
-/

namespace WasmHost

/-- The import returns to the guest, with success or with another errno. -/
def ReturnsErrno (result : World × Memory × Except Failure Unit) : Prop :=
  result.2.2 = .ok () ∨ ∃ errno, result.2.2 = .error (.errno errno)

/-- Everything else is an exception. -/
theorem returnsErrno_iff_ne (result : World × Memory × Except Failure Unit) :
    ReturnsErrno result ↔ ¬result.2.2 = .error .throws := by
  unfold ReturnsErrno
  rcases result.2.2 with (errno | _) | u <;> simp

namespace Import

/-- The imports named `fd_*`. -/
def OnDescriptor : Import → Prop
  | .call (.pathOpen ..) | .call (.pathOpen2 ..) | .call (.pathCreateDirectory ..)
  | .call (.pathUnlinkFile ..) | .call (.pathRemoveDirectory ..) | .call (.pathRename ..)
  | .call (.chdir ..) | .query (.pathFilestatGet ..) | .query (.pathFilestatSetTimes ..)
  | .query (.pathLink ..) | .query (.pathReadlink ..) | .query (.pathSymlink ..)
  | .query (.pollOneoff ..) | .query (.sockAccept ..) | .query (.sockRecv ..)
  | .query (.sockSend ..) | .query (.sockShutdown ..) => False
  | _ => True

/-- The pointers of the import lie inside its memory, with what is stored or read there. -/
def PointersInside (mem : Memory) : Import → Prop
  | .call (.fdDup mem _ retFdPtr) => mem.Inside retFdPtr 4
  | .call (.fdDup2 mem _ _ _ retFdPtr) => mem.Inside retFdPtr 4
  | .call (.fdPipe mem readFdPtr writeFdPtr) => mem.Inside readFdPtr 4 ∧ mem.Inside writeFdPtr 4
  | .call (.fdRead mem _ iovsPtr iovsLen nreadPtr) =>
      TableInside mem iovsPtr iovsLen ∧ mem.Inside nreadPtr 4
  | .call (.fdPread mem _ iovsPtr iovsLen _ nreadPtr) =>
      TableInside mem iovsPtr iovsLen ∧ mem.Inside nreadPtr 4
  | .call (.fdWrite mem _ iovsPtr iovsLen nwrittenPtr) =>
      TableInside mem iovsPtr iovsLen ∧ mem.Inside nwrittenPtr 4
  | .call (.fdPwrite mem _ iovsPtr iovsLen _ nwrittenPtr) =>
      TableInside mem iovsPtr iovsLen ∧ mem.Inside nwrittenPtr 4
  | .call (.fdSeek mem _ _ _ newOffsetPtr) => mem.Inside newOffsetPtr 8
  | .call (.fdTell mem _ offsetPtr) => mem.Inside offsetPtr 8
  | .call (.fdReaddir mem _ bufferPtr bufferLength _ bufferUsedPtr) =>
      mem.Inside bufferPtr (toUint32 bufferLength).toNat ∧ mem.Inside bufferUsedPtr 4
  | .query (.fdFdstatGet _ fdstatPtr) => mem.Inside fdstatPtr 24
  | .query (.fdFdflagsGet _ flagsPtr) => mem.Inside flagsPtr 4
  | .query (.fdFilestatGet _ filestatPtr) => mem.Inside filestatPtr 64
  | .query (.fdPrestatGet _ prestatPtr) => mem.Inside prestatPtr 8
  | .query (.fdPrestatDirName _ pathPtr pathLen) => mem.Inside pathPtr (toUint32 pathLen).toNat
  | _ => True

end Import

theorem OpenFile.record?_eq_none {file : OpenFile} (h : file.isOpenDirectory = true) :
    file.record? = none := by
  obtain ⟨kind, mount, path, rights, fdflags⟩ := file
  cases kind with
  | file => cases h
  | _ => rfl

namespace World

variable (w : World) (allocates : ℕ → Bool)

/-! ### The exceptions -/

/-- A seek throws: it starts from the end of a directory, or it moves the offset and its result is
at a negative address. -/
def SeekThrows (fd delta whence newOffsetPtr : Int) : Prop :=
  ∃ file ∈ w.openFile fd, ∃ offset ∈ offset? file,
    file.isOpenDirectory = true ∧ whence = 2 ∨
      newOffsetPtr < 0 ∧ ∃ base, w.seekBase file offset whence = .ok base ∧ 0 ≤ base + delta ∧
        base + delta ≤ maxSafeInteger

/-- A file behind a descriptor needs a length that the host does not grant. -/
def ResizeRefused (fd : Int) (mayResize : OpenFile → Bool) (size : ℕ) (needs : ℕ → Prop) : Prop :=
  ∃ file ∈ w.openFile fd, ∃ record ∈ file.record?, mayResize file = true ∧
    needs (w.host.records.get record).bytes.length ∧ allocates size = false

/-- The exceptions of the descriptor imports. -/
def Crashes : Import → Prop
  | .call (.fdDup _ fd retFdPtr) => retFdPtr < 0 ∧ (w.fdStat fd).isSome = true
  | .call (.fdDup2 _ _ _ _ retFdPtr) => retFdPtr < 0
  | .call (.fdPipe _ readFdPtr writeFdPtr) => readFdPtr < 0 ∨ writeFdPtr < 0
  | .call (.fdRead mem fd iovsPtr iovsLen nreadPtr) =>
      nreadPtr < 0 ∨ ∃ source ∈ w.readSource fd,
        ReadThrows allocates mem iovsPtr iovsLen nreadPtr source
  | .call (.fdPread mem fd iovsPtr iovsLen offset nreadPtr) =>
      nreadPtr < 0 ∨ ∃ input ∈ w.preadSource fd offset,
        ScatterThrows (mem.clearU32 nreadPtr) input iovsPtr iovsLen
  | .call (.fdWrite mem fd iovsPtr iovsLen nwrittenPtr) =>
      nwrittenPtr < 0 ∨ ∃ target ∈ w.writeTarget fd,
        WriteThrows allocates mem iovsPtr iovsLen nwrittenPtr target
  | .call (.fdPwrite mem fd iovsPtr iovsLen offset nwrittenPtr) =>
      nwrittenPtr < 0 ∨ ∃ target ∈ w.pwriteTarget fd offset,
        PwriteThrows allocates mem iovsPtr iovsLen nwrittenPtr target
  | .call (.fdSeek _ fd delta whence newOffsetPtr) => w.SeekThrows fd delta whence newOffsetPtr
  | .call (.fdTell _ fd offsetPtr) => offsetPtr < 0 ∧ ((w.openFile fd).bind offset?).isSome = true
  | .call (.fdReaddir _ fd _ _ cookie bufferUsedPtr) =>
      bufferUsedPtr < 0 ∧ (w.directoryForFd fd).isSome = true ∧
        (readdirStartIndex cookie).isSome = true
  | .call (.fdAllocate fd offset length) =>
      ∃ size, resolveFileAllocation offset length = .ok (some size) ∧
        w.ResizeRefused allocates fd OpenFile.canAllocateFile size fun length => length < size
  | .call (.fdFilestatSetSize fd size) =>
      ∃ size', resolveFileSize size = .ok size' ∧
        w.ResizeRefused allocates fd OpenFile.canResizeFile size' fun length => length ≠ size'
  | .query (.fdFdstatGet fd fdstatPtr) => fdstatPtr < 0 ∧ (w.fdStat fd).isSome = true
  | .query (.fdFdflagsGet fd flagsPtr) => flagsPtr < 0 ∧ (w.fdStat fd).isSome = true
  | .query (.fdFilestatGet fd filestatPtr) => filestatPtr < 0 ∧ (w.fdStat fd).isSome = true
  | .query (.fdPrestatGet fd prestatPtr) => prestatPtr < 0 ∧ (w.preopenPath fd).isSome = true
  | .query (.fdPrestatDirName fd pathPtr pathLen) =>
      pathPtr < 0 ∧ ∃ path ∈ w.preopenPath fd, (encodeText path).length ≤ toUint32 pathLen
  | _ => False

/-! ### Descriptors -/

section

variable {w : World} {allocates : ℕ → Bool} {mem : Memory} {retFdPtr : Int}

/-- Everything that is open can be duplicated. -/
theorem isSome_duplicateOpenFileForFd (w : World) (fd : Int) :
    (w.duplicateOpenFileForFd fd).2.isSome = (w.fdStat fd).isSome := by
  unfold duplicateOpenFileForFd
  cases hopen : w.openFile fd with
  | some => simp [w.fdStat_of_openFile hopen]
  | none =>
    rw [w.fdStat_of_openFile_none hopen, builtinStat]
    cases stdioRights fd with
    | some => rfl
    | none =>
      by_cases hworkspace : fd = workspaceFd
      · simp [hworkspace]
      by_cases htmp : fd = tmpFd
      · simp [htmp, workspaceFd, tmpFd]
      by_cases hroot : some fd = w.runtime.packageRootFd <;> simp [hworkspace, htmp, hroot]

variable {fd : Int}

theorem fdDup_throws_iff (h : mem.Inside retFdPtr 4) :
    (w.fdDup mem fd retFdPtr).2.2 = .error .throws ↔
      retFdPtr < 0 ∧ (w.fdStat fd).isSome = true := by
  have hsome := w.isSome_duplicateOpenFileForFd fd
  unfold fdDup duplicateFd
  rw [if_neg (by simp [Memory.canWriteU32_of_inside h])]
  split
  next w' hdup =>
    rw [hdup] at hsome
    simp [← hsome]
  next w' file hdup =>
    rw [hdup] at hsome
    simpa [← hsome] using Memory.finishU32_throws_iff h _ (.ok ())

theorem fdDup2_throws_iff {targetFd cloexec : Int} (h : mem.Inside retFdPtr 4) :
    (w.fdDup2 mem fd targetFd cloexec retFdPtr).2.2 = .error .throws ↔ retFdPtr < 0 := by
  have hfinish : ∀ value result, result ≠ .error .throws →
      ((mem.finishU32 retFdPtr value result).2 = .error .throws ↔ retFdPtr < 0) := by
    intro value result hresult
    rw [Memory.finishU32_throws_iff h, or_iff_left hresult]
  unfold fdDup2 duplicateFdTo
  rw [if_neg (by simp [Memory.canWriteU32_of_inside h])]
  repeat' split
  -- the result is stored in every branch
  all_goals exact hfinish _ _ (by simp)

theorem fdPipe_throws_iff {readFdPtr writeFdPtr : Int} (hread : mem.Inside readFdPtr 4)
    (hwrite : mem.Inside writeFdPtr 4) :
    (w.fdPipe mem readFdPtr writeFdPtr).2.2 = .error .throws ↔ readFdPtr < 0 ∨ writeFdPtr < 0 := by
  unfold fdPipe
  rw [if_neg (by simp [Memory.canWriteU32_of_inside hread, Memory.canWriteU32_of_inside hwrite])]
  dsimp only
  rw [← Memory.writeU32_eq_none_iff hread (w.allocPipe.allocateDynamicFileFd firstFileFd).2.toNat]
  split
  next hnone => simp [hnone]
  next mem' hsome =>
    rw [Memory.finishU32_throws_iff (hwrite.congr (mem.byteLength_of_writeU32 hsome)), hsome]
    simp

/-! ### Offsets and sizes -/

/-- A base that is not there is that of the end of a directory. -/
theorem seekBase_throws_iff (file : OpenFile) (offset : ℕ) (whence : Int) :
    w.seekBase file offset whence = .error .throws ↔ file.record? = none ∧ whence = 2 := by
  unfold seekBase
  by_cases hset : whence = 0
  · simp [hset]
  by_cases hcur : whence = 1
  · simp [hcur]
  by_cases hend : whence = 2
  · cases file.record? <;> simp [hend]
  · simp [hset, hcur, hend]

theorem fdSeek_throws_iff {delta whence newOffsetPtr : Int} (hptr : mem.Inside newOffsetPtr 8) :
    (w.fdSeek mem fd delta whence newOffsetPtr).2.2 = .error .throws ↔
      w.SeekThrows fd delta whence newOffsetPtr := by
  unfold fdSeek SeekThrows
  cases w.openFile fd with
  | none => simp
  | some file =>
    cases hoffset : offset? file with
    | none => simp [hoffset]
    | some offset =>
      have hkind : file.record? = none ↔ file.isOpenDirectory = true := by
        obtain ⟨kind, mount, path, rights, fdflags⟩ := file
        cases kind with
        | directory => exact iff_of_true rfl rfl
        | file => simp [OpenFile.record?, OpenFile.isOpenDirectory]
        | pipe | stdio => cases hoffset
      simp only [Option.mem_some_iff, exists_eq_left', hoffset, resolveFileSeekOffset]
      rw [← hkind, ← seekBase_throws_iff file offset whence]
      cases hbase : w.seekBase file offset whence with
      | error => simp
      | ok base =>
        dsimp only
        by_cases hlow : base + delta < 0
        · simp [hlow]
        by_cases hhigh : (maxSafeInteger : Int) < base + delta
        · simp [hlow, hhigh]
        rw [if_neg hlow, if_neg hhigh]
        have hwrite := Memory.writeU64_eq_none_iff hptr (base + delta).toNat
        dsimp only
        cases hstore : mem.writeU64 newOffsetPtr (base + delta).toNat with
        | none =>
          refine iff_of_true rfl (.inr ⟨hwrite.1 hstore, base, rfl, ?_, ?_⟩)
          · exact Int.not_lt.1 hlow
          · exact Int.not_lt.1 hhigh
        | some =>
          have hneg : ¬newOffsetPtr < 0 := fun h => by
            rw [hwrite.2 h] at hstore
            cases hstore
          simp [hneg]

theorem fdTell_throws_iff {offsetPtr : Int} (hptr : mem.Inside offsetPtr 8) :
    (w.fdTell mem fd offsetPtr).2.2 = .error .throws ↔
      offsetPtr < 0 ∧ ((w.openFile fd).bind offset?).isSome = true := by
  unfold fdTell
  cases w.openFile fd with
  | none => simp
  | some file =>
    simp only [Option.bind_some]
    cases offset? file with
    | none => simp
    | some offset =>
      dsimp only
      rw [← Memory.writeU64_eq_none_iff hptr (w.host.offsets.get offset)]
      cases mem.writeU64 offsetPtr (w.host.offsets.get offset) <;> simp

theorem fdReaddir_throws_iff {bufferPtr bufferLength cookie bufferUsedPtr : Int}
    (hptr : mem.Inside bufferUsedPtr 4) :
    (w.fdReaddir mem fd bufferPtr bufferLength cookie bufferUsedPtr).2 = .error .throws ↔
      bufferUsedPtr < 0 ∧ (w.directoryForFd fd).isSome = true ∧
        (readdirStartIndex cookie).isSome = true := by
  unfold fdReaddir
  cases w.directoryForFd fd with
  | none => simp
  | some =>
    cases readdirStartIndex cookie with
    | none => simp
    | some =>
      rw [Memory.finishU32_throws_iff (hptr.congr (mem.byteLength_store _ _))]
      simp

theorem resizeOpenFileWithin_throws_iff (file : OpenFile) (record size : ℕ) :
    (w.resizeOpenFileWithin allocates file record size).2 = .error .throws ↔
      (w.host.records.get record).bytes.length ≠ size ∧ allocates size = false := by
  unfold resizeOpenFileWithin
  split
  next hsame => simp [hsame]
  split
  next hdiffers hrefused => exact iff_of_true rfl ⟨hdiffers, hrefused⟩
  next hgranted => simp [hgranted]

/-- The rights of pipes matter here: a pipe has no record to resize. -/
theorem fdFilestatSetSizeWithin_throws_iff (hpipes : w.runtime.FixedPipes) (fd size : Int) :
    (w.fdFilestatSetSizeWithin allocates fd size).2 = .error .throws ↔
      ∃ size', resolveFileSize size = .ok size' ∧
        w.ResizeRefused allocates fd OpenFile.canResizeFile size' fun length => length ≠ size' := by
  unfold fdFilestatSetSizeWithin ResizeRefused
  cases hopen : w.openFile fd with
  | none => simp
  | some file =>
    dsimp only
    split
    next hdirectory =>
      have hrecord : file.record? = none := OpenFile.record?_eq_none hdirectory
      simp [hrecord]
    split
    next hresize => simp [hresize]
    next hresize =>
      have hcan : file.canResizeFile = true := by simpa using hresize
      obtain ⟨record, hrecord⟩ := (hpipes fd file hopen).record_of_resizable (.inr hcan)
      cases resolveFileSize size with
      | error => simp
      | ok =>
        rw [hrecord]
        rw [resizeOpenFileWithin_throws_iff]
        simp [hrecord, hcan]

theorem fdAllocateWithin_throws_iff (hpipes : w.runtime.FixedPipes) (fd offset length : Int) :
    (w.fdAllocateWithin allocates fd offset length).2 = .error .throws ↔
      ∃ size, resolveFileAllocation offset length = .ok (some size) ∧
        w.ResizeRefused allocates fd OpenFile.canAllocateFile size fun length => length < size := by
  unfold fdAllocateWithin ResizeRefused
  cases hopen : w.openFile fd with
  | none => simp
  | some file =>
    dsimp only
    split
    next hdirectory =>
      have hrecord : file.record? = none := OpenFile.record?_eq_none hdirectory
      simp [hrecord]
    split
    next hallocate => simp [hallocate]
    next hallocate =>
      have hcan : file.canAllocateFile = true := by simpa using hallocate
      obtain ⟨record, hrecord⟩ := (hpipes fd file hopen).record_of_resizable (.inl hcan)
      rcases resolveFileAllocation offset length with errno | (_ | size)
      · simp
      · simp
      · dsimp only
        rw [hrecord]
        dsimp only
        split
        next hgrows =>
          rw [resizeOpenFileWithin_throws_iff]
          simp [hrecord, hcan, hgrows, hgrows.ne]
        next hlarge => simp [hrecord, hcan, hlarge]

/-! ### Status calls -/

theorem fdFdstatGet_throws_iff {fdstatPtr : Int} (hptr : mem.Inside fdstatPtr 24) :
    (w.fdFdstatGet mem fd fdstatPtr).2 = .error .throws ↔
      fdstatPtr < 0 ∧ (w.fdStat fd).isSome = true := by
  unfold fdFdstatGet
  cases w.fdStat fd with
  | none => simp
  | some =>
    rw [Memory.finishStruct_throws_iff hptr]
    simp

theorem fdFilestatGet_throws_iff {filestatPtr : Int} (hptr : mem.Inside filestatPtr 64) :
    (w.fdFilestatGet mem fd filestatPtr).2 = .error .throws ↔
      filestatPtr < 0 ∧ (w.fdStat fd).isSome = true := by
  unfold fdFilestatGet
  cases w.fdStat fd with
  | none => simp
  | some =>
    rw [Memory.finishStruct_throws_iff hptr]
    simp

theorem fdFdflagsGet_throws_iff {flagsPtr : Int} (hptr : mem.Inside flagsPtr 4) :
    (w.fdFdflagsGet mem fd flagsPtr).2 = .error .throws ↔
      flagsPtr < 0 ∧ (w.fdStat fd).isSome = true := by
  unfold fdFdflagsGet
  cases w.fdStat fd with
  | none => simp
  | some => simpa using Memory.finishU32_throws_iff hptr _ (.ok ())

theorem fdPrestatGet_throws_iff {prestatPtr : Int} (hptr : mem.Inside prestatPtr 8) :
    (w.fdPrestatGet mem fd prestatPtr).2 = .error .throws ↔
      prestatPtr < 0 ∧ (w.preopenPath fd).isSome = true := by
  unfold fdPrestatGet
  cases w.preopenPath fd with
  | none => simp
  | some =>
    rw [Memory.finishStruct_throws_iff hptr]
    simp

theorem fdPrestatDirName_throws_iff {pathPtr pathLen : Int}
    (hptr : mem.Inside pathPtr (toUint32 pathLen).toNat) :
    (w.fdPrestatDirName mem fd pathPtr pathLen).2 = .error .throws ↔
      pathPtr < 0 ∧ ∃ path ∈ w.preopenPath fd, (encodeText path).length ≤ toUint32 pathLen := by
  unfold fdPrestatDirName
  cases w.preopenPath fd with
  | none => simp
  | some path =>
    dsimp only
    split
    next hshort => simp [Int.not_le.2 hshort]
    next hlong =>
      have hle : (encodeText path).length ≤ toUint32 pathLen := Int.not_lt.1 hlong
      rw [Memory.finishStruct_throws_iff (hptr.mono (by omega))]
      simp [hle]

/-! ### Every import -/

theorem callResultWithin_throws_iff (hpipes : w.runtime.FixedPipes) {c : Call}
    (hon : (Import.call c).OnDescriptor) (hinside : (Import.call c).PointersInside mem) :
    (w.callResultWithin allocates mem c).2.2 = .error .throws ↔ w.Crashes allocates (.call c) := by
  cases c with
  | fdDup => exact fdDup_throws_iff hinside
  | fdDup2 => exact fdDup2_throws_iff hinside
  | fdPipe => exact fdPipe_throws_iff hinside.1 hinside.2
  | fdClose | fdRenumber | fdFdstatSetRights | fdFdflagsSet =>
    -- these calls reach no memory and store no bytes
    refine iff_of_false ?_ id
    dsimp only [callResultWithin, callResult, fdClose, fdRenumber, fdFdstatSetRights, fdFdflagsSet]
    repeat' split
    all_goals simp
  | fdRead mem' fd iovsPtr iovsLen nreadPtr => exact fdReadWithin_throws_iff hinside.1 hinside.2 fd
  | fdPread mem' fd iovsPtr iovsLen offset nreadPtr =>
    exact fdPread_throws_iff hinside.1 hinside.2 fd offset
  | fdWrite mem' fd iovsPtr iovsLen nwrittenPtr =>
    exact fdWriteWithin_throws_iff hinside.1 hinside.2 fd
  | fdPwrite mem' fd iovsPtr iovsLen offset nwrittenPtr =>
    exact fdPwriteWithin_throws_iff hinside.1 hinside.2 fd offset
  | fdSeek => exact fdSeek_throws_iff hinside
  | fdTell => exact fdTell_throws_iff hinside
  | fdReaddir => exact fdReaddir_throws_iff hinside.2
  | fdAllocate fd offset length => exact fdAllocateWithin_throws_iff hpipes fd offset length
  | fdFilestatSetSize fd size => exact fdFilestatSetSizeWithin_throws_iff hpipes fd size
  | _ => exact hon.elim

theorem query_throws_iff {q : Query} (hon : (Import.query q).OnDescriptor)
    (hinside : (Import.query q).PointersInside mem) :
    (w.query mem q).2 = .error .throws ↔ w.Crashes allocates (.query q) := by
  cases q with
  | fdFdstatGet => exact fdFdstatGet_throws_iff hinside
  | fdFdflagsGet => exact fdFdflagsGet_throws_iff hinside
  | fdFilestatGet => exact fdFilestatGet_throws_iff hinside
  | fdFdstatSetFlags | fdFilestatSetTimes | fdAdvise | fdDatasync | fdSync =>
    refine iff_of_false ?_ id
    dsimp only [query, fdFdstatSetFlags, fdFilestatSetTimes, fdAdvise, fdSync]
    repeat' split
    all_goals simp
  | fdPrestatGet => exact fdPrestatGet_throws_iff hinside
  | fdPrestatDirName => exact fdPrestatDirName_throws_iff hinside
  | _ => exact hon.elim

end

end World

/-! ### Runs -/

namespace System

/-- In every reachable state an import whose pointers lie inside the memory returns an errno exactly
when it does not meet one of the exceptions. -/
theorem returnsErrno_iff {host : Host} {cwd : Option Text} {stdin : Bytes} {s : System}
    (h : Reach stepWithin (start host cwd stdin) s) (allocates : ℕ → Bool)
    {mem : Memory} {i : Import}
    (hon : i.OnDescriptor) (hinside : i.PointersInside mem) :
    ReturnsErrno (s.world.runWithin allocates mem i) ↔ ¬s.world.Crashes allocates i := by
  have hpipes : s.world.runtime.FixedPipes := fixedPipes_of_reach h s.runtime List.mem_cons_self
  rw [returnsErrno_iff_ne]
  refine not_congr ?_
  cases i with
  | call c => exact World.callResultWithin_throws_iff hpipes hon hinside
  | query q => exact World.query_throws_iff hon hinside

/-- The guest has duplicated the number of the workspace, which puts a directory into the table. -/
def directoryAtFive : System :=
  (boot none [] [] none []).stepWithin (.call (fun _ => true) (.fdDup iovMemory 3 16))

theorem reach_directoryAtFive : Reach stepWithin (boot none [] [] none []) directoryAtFive :=
  reach_step _ _ _

/-- The general theorem, applied to a seek from the start of that directory. -/
theorem returnsErrno_seekStart :
    ReturnsErrno (directoryAtFive.world.runWithin (fun _ => true) iovMemory
      (.call (.fdSeek iovMemory 5 0 0 24))) := by
  have hon : (Import.call (.fdSeek iovMemory 5 0 0 24)).OnDescriptor := trivial
  have hinside : iovMemory.Inside 24 8 := by decide
  refine (returnsErrno_iff reach_directoryAtFive (fun _ => true) hon hinside).2 ?_
  rintro ⟨file, -, offset, -, ⟨-, hwhence⟩ | ⟨hptr, -⟩⟩
  · cases hwhence
  · cases hptr

/-- A seek from its end throws, although the host grants every buffer and the result would be stored
inside the memory. -/
theorem not_returnsErrno_seekEnd :
    ¬∀ s, Reach stepWithin (boot none [] [] none []) s → ∀ (allocates : ℕ → Bool) (mem : Memory)
      (i : Import), i.OnDescriptor → i.PointersInside mem →
        ReturnsErrno (s.world.runWithin allocates mem i) := by
  intro h
  have hinside : iovMemory.Inside 24 8 := by decide
  have hreturns := h directoryAtFive reach_directoryAtFive (fun _ => true) iovMemory
    (.call (.fdSeek iovMemory 5 0 2 24)) trivial hinside
  have hthrows : (directoryAtFive.world.runWithin (fun _ => true) iovMemory
      (.call (.fdSeek iovMemory 5 0 2 24))).2.2 = .error .throws := rfl
  exact (returnsErrno_iff_ne _).1 hreturns hthrows

end System

end WasmHost

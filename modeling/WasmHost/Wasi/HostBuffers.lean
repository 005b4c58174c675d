import WasmHost.Wasi.Queries

/-!
# Buffers of the host

`new Uint8Array(length)` throws a `RangeError` where the host does not grant that many bytes, and a
guest can make it ask for any number of them: for the copies of a gather, for a file that grows or
is resized, and for the content of a pipe. The calls that do so, with `allocates` for the lengths
that are granted; what such a call has changed before it throws stays changed.

* `World.runWithin`: an import under such a host.
* `World.runWithin_true`: where everything is granted it is `World.run`.
-/

namespace WasmHost

/-- `readIovChunks`, which copies every chunk. -/
def readIovChunksWithin (allocates : ℕ → Bool) (mem : Memory) (iovsPtr iovsLen : Int) :
    Option IovChunks :=
  (readIovChunks mem iovsPtr iovsLen).filter fun c =>
    c.chunks.all fun chunk => allocates chunk.length

/-- The loop of `writeOpenFileAt`. Where it cannot grow the file it stops, with what is written. -/
def writeChunksWithin (allocates : ℕ → Bool) : WriteLoop → List Bytes → Except WriteLoop WriteLoop
  | loop, [] => .ok loop
  | loop, chunk :: chunks =>
      if loop.bytes.length < loop.offset + chunk.length ∧
          allocates (loop.offset + chunk.length) = false then .error loop
      else writeChunksWithin allocates (writeChunks loop [chunk]) chunks

namespace World

variable (w : World) (allocates : ℕ → Bool)

/-- The world after the loop, and the offset behind the chunks; `none`: the file did not grow. -/
def writeOpenFileAtWithin (file : OpenFile) (record : ℕ) (chunks : List Bytes) (offset : ℕ) :
    World × Option ℕ :=
  match writeChunksWithin allocates ⟨(w.host.records.get record).bytes, offset, false⟩ chunks with
  | .error loop => (w.modifyRecord record fun r => { r with bytes := loop.bytes }, none)
  | .ok loop =>
      let written := w.modifyRecord record fun r => { r with bytes := loop.bytes }
      (if loop.changed then written.markOpenFileDirty file record else written, some loop.offset)

/-- Writes to a file, if there is memory for it. -/
def writeOpenFileWithin (file : OpenFile) (record offset : ℕ) (chunks : List Bytes) :
    World × Except Failure Unit :=
  let start :=
    if hasFlag file.fdflags fdflagsAppend then (w.host.records.get record).bytes.length
    else w.host.offsets.get offset
  match w.writeOpenFileAtWithin allocates file record chunks start with
  | (w', some offset') => (w'.setOffset offset offset', .ok ())
  | (w', none) => (w', .error .throws)

/-- Cuts or fills a file, if there is memory for it. -/
def resizeOpenFileWithin (file : OpenFile) (record size : ℕ) : World × Except Failure Unit :=
  if (w.host.records.get record).bytes.length = size then (w, .ok ())
  else if allocates size = false then (w, .error .throws)
  else (w.resizeOpenFile file record size, .ok ())

/-! ### Writing -/

/-- Writes to an output, if there is memory for it. -/
def fdWriteStdioWithin (mem : Memory) (file : OpenFile)
    (stdioFd iovsPtr iovsLen nwrittenPtr : Int) : IoResult :=
  if stdioFd ≠ stdoutFd ∧ stdioFd ≠ stderrFd then
    (w, mem.finishU32 nwrittenPtr 0 (.error (.errno .badf)))
  else if hasRight file.rights rightFdWrite = false then
    (w, mem.finishU32 nwrittenPtr 0 (.error (.errno .notcapable)))
  else
    match readIovChunksWithin allocates mem iovsPtr iovsLen with
    | none => (w, mem, .error .throws)
    | some ⟨chunks, total⟩ =>
        match mem.writeU32 nwrittenPtr total with
        | none => (w, mem, .error .throws)
        | some mem' => (w.writeStdio stdioFd chunks, mem', .ok ())

/-- Writes to a pipe, if there is memory for it. -/
def fdWritePipeWithin (mem : Memory) (file : OpenFile) (direction : Direction) (pipe : ℕ)
    (iovsPtr iovsLen nwrittenPtr : Int) : IoResult :=
  match mem.writeU32 nwrittenPtr 0 with
  | none => (w, mem, .error .throws)
  | some mem₀ =>
      if direction ≠ .write then (w, mem₀, .error (.errno .badf))
      else if hasRight file.rights rightFdWrite = false then
        (w, mem₀, .error (.errno .notcapable))
      else if (w.host.pipes.get pipe).readers = 0 then (w, mem₀, .error (.errno .pipe))
      else
        match readIovChunksWithin allocates mem₀ iovsPtr iovsLen with
        | none => (w, mem₀, .error .throws)
        | some ⟨chunks, total⟩ =>
            if pipeBufferLimit < (w.host.pipes.get pipe).bytes.length + total then
              (w, mem₀, .error (.errno .again))
            else if allocates ((w.host.pipes.get pipe).bytes.length + total) = false then
              (w, mem₀, .error .throws)
            else
              (w.setHost (w.host.modifyPipe pipe fun p =>
                  { p with bytes := p.bytes ++ zeroPad chunks.flatten total }),
                mem₀.finishU32 nwrittenPtr total (.ok ()))

/-- The import `fd_write`. -/
def fdWriteWithin (mem : Memory) (fd iovsPtr iovsLen nwrittenPtr : Int) : IoResult :=
  match w.openFile fd with
  | none =>
      if fd ≠ stdoutFd ∧ fd ≠ stderrFd then
        (w, mem.finishU32 nwrittenPtr 0 (.error (.errno .badf)))
      else
        match readIovChunksWithin allocates mem iovsPtr iovsLen with
        | none => (w, mem, .error .throws)
        | some ⟨chunks, total⟩ =>
            match mem.writeU32 nwrittenPtr total with
            | none => (w, mem, .error .throws)
            | some mem' => (w.writeStdio fd chunks, mem', .ok ())
  | some file =>
      match file.kind with
      | .pipe direction pipe =>
          w.fdWritePipeWithin allocates mem file direction pipe iovsPtr iovsLen nwrittenPtr
      | .stdio stdioFd =>
          w.fdWriteStdioWithin allocates mem file stdioFd iovsPtr iovsLen nwrittenPtr
      | .directory .. => (w, mem.finishU32 nwrittenPtr 0 (.error (.errno .notcapable)))
      | .file record _ offset =>
          if file.canWriteFile = false then
            (w, mem.finishU32 nwrittenPtr 0 (.error (.errno .notcapable)))
          else
            match readIovChunksWithin allocates mem iovsPtr iovsLen with
            | none => (w, mem, .error .throws)
            | some ⟨chunks, total⟩ =>
                match mem.writeU32 nwrittenPtr total with
                | none => (w, mem, .error .throws)
                | some mem' =>
                    let r := w.writeOpenFileWithin allocates file record offset chunks
                    (r.1, mem', r.2)

/-- The import `fd_pwrite`. -/
def fdPwriteWithin (mem : Memory) (fd iovsPtr iovsLen offset nwrittenPtr : Int) : IoResult :=
  match mem.writeU32 nwrittenPtr 0 with
  | none => (w, mem, .error .throws)
  | some mem₀ =>
      if w.isDirectoryFd fd = true then (w, mem₀, .error (.errno .isdir))
      else
        match w.openFile fd with
        | none => (w, mem₀, .error (.errno (w.knownFd fd .notcapable)))
        | some file =>
            match file.kind with
            | .file record _ _ =>
                if file.canWriteFile = false then (w, mem₀, .error (.errno .notcapable))
                else
                  match resolveFileSize offset with
                  | .error errno => (w, mem₀, .error (.errno errno))
                  | .ok start =>
                      match readIovChunksWithin allocates mem₀ iovsPtr iovsLen with
                      | none => (w, mem₀, .error .throws)
                      | some ⟨chunks, total⟩ =>
                          match resolveFileRange start total with
                          | .error errno => (w, mem₀, .error (.errno errno))
                          | .ok _ =>
                              match w.writeOpenFileAtWithin allocates file record chunks start with
                              | (w', none) => (w', mem₀, .error .throws)
                              | (w', some _) => (w', mem₀.finishU32 nwrittenPtr total (.ok ()))
            | _ => (w, mem₀, .error (.errno .badf))

/-! ### Reading -/

/-- The bytes that stay in the pipe are a copy. -/
def fdReadPipeWithin (mem : Memory) (file : OpenFile) (direction : Direction) (pipe : ℕ)
    (iovsPtr iovsLen nreadPtr : Int) : IoResult :=
  match mem.writeU32 nreadPtr 0 with
  | none => (w, mem, .error .throws)
  | some mem₀ =>
      if direction ≠ .read then (w, mem₀, .error (.errno .badf))
      else if hasRight file.rights rightFdRead = false then
        (w, mem₀, .error (.errno .notcapable))
      else if (w.host.pipes.get pipe).bytes = [] then
        (w, mem₀,
          if 0 < (w.host.pipes.get pipe).writers then .error (.errno .again) else .ok ())
      else
        match readIntoIovs mem₀ (w.host.pipes.get pipe).bytes 0 iovsPtr iovsLen with
        | none => (w, mem₀, .error .throws)
        | some s =>
            if allocates ((w.host.pipes.get pipe).bytes.length - s.total) = false then
              (w, s.mem, .error .throws)
            else
              (w.setHost (w.host.modifyPipe pipe fun p => { p with bytes := p.bytes.drop s.total }),
                s.mem.finishU32 nreadPtr s.total (.ok ()))

/-- The import `fd_read`. -/
def fdReadWithin (mem : Memory) (fd iovsPtr iovsLen nreadPtr : Int) : IoResult :=
  match w.openFile fd with
  | some ⟨.pipe direction pipe, mount, path, rights, fdflags⟩ =>
      w.fdReadPipeWithin allocates mem ⟨.pipe direction pipe, mount, path, rights,
        fdflags⟩ direction
        pipe iovsPtr iovsLen nreadPtr
  | _ => w.fdRead mem fd iovsPtr iovsLen nreadPtr

/-! ### Sizes -/

/-- The import `fd_filestat_set_size`. -/
def fdFilestatSetSizeWithin (fd size : Int) : World × Except Failure Unit :=
  match w.openFile fd with
  | none => (w, .error (.errno (w.notInTable fd)))
  | some file =>
      if file.isOpenDirectory then (w, .error (.errno .isdir))
      else if file.canResizeFile = false then (w, .error (.errno .notcapable))
      else
        match resolveFileSize size with
        | .error errno => (w, .error (.errno errno))
        | .ok size =>
            match file.record? with
            | some record => w.resizeOpenFileWithin allocates file record size
            | none => (w, .error .throws)

/-- The import `fd_allocate`. -/
def fdAllocateWithin (fd offset length : Int) : World × Except Failure Unit :=
  match w.openFile fd with
  | none => (w, .error (.errno (w.notInTable fd)))
  | some file =>
      if file.isOpenDirectory then (w, .error (.errno .isdir))
      else if file.canAllocateFile = false then (w, .error (.errno .notcapable))
      else
        match resolveFileAllocation offset length with
        | .error errno => (w, .error (.errno errno))
        | .ok none => (w, .ok ())
        | .ok (some size) =>
            match file.record? with
            | some record =>
                if (w.host.records.get record).bytes.length < size then
                  w.resizeOpenFileWithin allocates file record size
                else (w, .ok ())
            | none => (w, .error .throws)

/-! ### Imports -/

/-- The calls that allocate no buffer of the guest's choice are as before. -/
def callResultWithin (mem : Memory) : Call → World × Memory × Except Failure Unit
  | .fdRead mem fd iovsPtr iovsLen nreadPtr =>
      w.fdReadWithin allocates mem fd iovsPtr iovsLen nreadPtr
  | .fdWrite mem fd iovsPtr iovsLen nwrittenPtr =>
      w.fdWriteWithin allocates mem fd iovsPtr iovsLen nwrittenPtr
  | .fdPwrite mem fd iovsPtr iovsLen offset nwrittenPtr =>
      w.fdPwriteWithin allocates mem fd iovsPtr iovsLen offset nwrittenPtr
  | .fdAllocate fd offset length =>
      let r := w.fdAllocateWithin allocates fd offset length; (r.1, mem, r.2)
  | .fdFilestatSetSize fd size =>
      let r := w.fdFilestatSetSizeWithin allocates fd size; (r.1, mem, r.2)
  | c => w.callResult mem c

/-- The answer to an import. -/
def runWithin (mem : Memory) : Import → World × Memory × Except Failure Unit
  | .call c => w.callResultWithin allocates mem c
  | .query q => (w, w.query mem q)

/-! ### A host that grants everything -/

variable (mem : Memory)

theorem readIovChunksWithin_true : readIovChunksWithin (fun _ => true) = readIovChunks := by
  ext mem iovsPtr iovsLen : 3
  unfold readIovChunksWithin
  cases readIovChunks mem iovsPtr iovsLen with
  | none => rfl
  | some => simp

theorem writeChunksWithin_true (loop : WriteLoop) (chunks : List Bytes) :
    writeChunksWithin (fun _ => true) loop chunks = .ok (writeChunks loop chunks) := by
  induction chunks generalizing loop with
  | nil => rfl
  | cons chunk chunks ih =>
    rw [writeChunksWithin, if_neg (by simp), ih]
    rfl

theorem writeOpenFileAtWithin_true :
    w.writeOpenFileAtWithin (fun _ => true) = fun file record chunks offset =>
      ((w.writeOpenFileAt file record chunks offset).1,
        some (w.writeOpenFileAt file record chunks offset).2) := by
  ext file record chunks offset : 4
  unfold writeOpenFileAtWithin
  rw [writeChunksWithin_true]
  rfl

theorem writeOpenFileWithin_true :
    w.writeOpenFileWithin (fun _ => true) = fun file record offset chunks =>
      (w.writeOpenFile file record offset chunks, .ok ()) := by
  ext file record offset chunks : 4
  unfold writeOpenFileWithin
  rw [writeOpenFileAtWithin_true]
  rfl

theorem resizeOpenFileWithin_true :
    w.resizeOpenFileWithin (fun _ => true) = fun file record size =>
      (w.resizeOpenFile file record size, .ok ()) := by
  ext file record size : 3
  unfold resizeOpenFileWithin
  split
  next h =>
    unfold resizeOpenFile
    rw [if_pos h]
  · rw [if_neg (by simp)]

theorem fdWriteWithin_true (fd iovsPtr iovsLen nwrittenPtr : Int) :
    w.fdWriteWithin (fun _ => true) mem fd iovsPtr iovsLen nwrittenPtr =
      w.fdWrite mem fd iovsPtr iovsLen nwrittenPtr := by
  unfold fdWriteWithin fdWrite fdWritePipeWithin fdWritePipe fdWriteStdioWithin fdWriteStdio
  rewrite [readIovChunksWithin_true, writeOpenFileWithin_true]
  rfl

theorem fdPwriteWithin_true (fd iovsPtr iovsLen offset nwrittenPtr : Int) :
    w.fdPwriteWithin (fun _ => true) mem fd iovsPtr iovsLen offset nwrittenPtr =
      w.fdPwrite mem fd iovsPtr iovsLen offset nwrittenPtr := by
  unfold fdPwriteWithin fdPwrite
  rewrite [readIovChunksWithin_true, writeOpenFileAtWithin_true]
  rfl

theorem fdReadWithin_true (fd iovsPtr iovsLen nreadPtr : Int) :
    w.fdReadWithin (fun _ => true) mem fd iovsPtr iovsLen nreadPtr =
      w.fdRead mem fd iovsPtr iovsLen nreadPtr := by
  unfold fdReadWithin
  split
  next hfile =>
    unfold fdRead fdReadPipeWithin fdReadPipe
    rewrite [hfile]
    rfl
  · rfl

theorem fdFilestatSetSizeWithin_true (fd size : Int) :
    w.fdFilestatSetSizeWithin (fun _ => true) fd size = w.fdFilestatSetSize fd size := by
  unfold fdFilestatSetSizeWithin fdFilestatSetSize resizeDescriptor
  rewrite [resizeOpenFileWithin_true]
  rfl

theorem fdAllocateWithin_true (fd offset length : Int) :
    w.fdAllocateWithin (fun _ => true) fd offset length = w.fdAllocate fd offset length := by
  have hgrow : w.growDescriptor = fun file size =>
      match file.record? with
      | some record =>
        if (w.host.records.get record).bytes.length < size then
          (w.resizeOpenFile file record size, .ok ())
        else (w, .ok ())
      | none => (w, .error .throws) := by
    ext file size : 2
    unfold growDescriptor
    cases file.record? with
    | none => rfl
    | some record =>
      dsimp only
      split_ifs
      · rfl
      · rfl
  unfold fdAllocateWithin fdAllocate
  rewrite [resizeOpenFileWithin_true, hgrow]
  rfl

/-- Nothing else has changed. -/
theorem runWithin_true (i : Import) : w.runWithin (fun _ => true) mem i = w.run mem i := by
  cases i with
  | query => rfl
  | call c =>
    show w.callResultWithin (fun _ => true) mem c = w.callResult mem c
    unfold callResultWithin
    split
    · exact w.fdReadWithin_true ..
    · exact w.fdWriteWithin_true ..
    · exact w.fdPwriteWithin_true ..
    · rw [fdAllocateWithin_true]
      rfl
    · rw [fdFilestatSetSizeWithin_true]
      rfl
    · rfl

end World

/-- What can happen next, with hosts that do not grant every buffer. -/
inductive HostEvent
  | event (e : Event)
  /-- The running guest makes a call under a host that grants these lengths. -/
  | call (allocates : ℕ → Bool) (c : Call)

/-- The state after an event. -/
def System.stepWithin (s : System) : HostEvent → System
  | .event e => s.step e
  | .call allocates c => s.withWorld (s.world.callResultWithin allocates ⟨0, fun _ => 0⟩ c).1

end WasmHost

import WasmHost.Wasi.Descriptors

/-!
# Reading and writing

The calls that move bytes between linear memory and the object behind a descriptor: `fd_read`,
`fd_pread`, `fd_write`, `fd_pwrite`, and the ones that move an offset or change a size:
`fd_seek`, `fd_tell`, `fd_allocate`, `fd_filestat_set_size`. Allocating a buffer never fails
here.
-/

namespace WasmHost

def pipeBufferLimit : ℕ := 1024 * 1024

/-- `Number.MAX_SAFE_INTEGER`. -/
def maxSafeInteger : ℕ := 2 ^ 53 - 1

/-- A buffer of the declared length that starts with the given bytes; the rest is zero. -/
def zeroPad (bytes : Bytes) (total : ℕ) : Bytes :=
  bytes ++ List.replicate (total - bytes.length) 0

/-- One round of the loop of `writeOpenFileAt`. -/
def writeChunk (bytes : Bytes) (offset : ℕ) (chunk : Bytes) : Bytes :=
  let grown := zeroPad bytes (offset + chunk.length)
  grown.take offset ++ chunk ++ grown.drop (offset + chunk.length)

/-- The state of the loop of `writeOpenFileAt`. -/
structure WriteLoop where
  bytes : Bytes
  offset : ℕ
  changed : Bool

/-- Writes chunks one after another. -/
def writeChunks (loop : WriteLoop) (chunks : List Bytes) : WriteLoop :=
  chunks.foldl (fun loop chunk =>
    { bytes := writeChunk loop.bytes loop.offset chunk
      offset := loop.offset + chunk.length
      changed := loop.changed || decide (loop.bytes.length < loop.offset + chunk.length) ||
        decide (0 < chunk.length) }) loop

/-- A size that a file may have. -/
def resolveFileSize (size : Int) : Except Errno ℕ :=
  if size < 0 then .error .inval
  else if maxSafeInteger < size then .error .overflow
  else .ok size.toNat

/-- The end of a range; `none` for an empty one. -/
def resolveFileRange (offset length : Int) : Except Errno (Option ℕ) :=
  if offset < 0 ∨ length < 0 then .error .inval
  else if maxSafeInteger < offset ∨ maxSafeInteger < length then .error .overflow
  else if length = 0 then .ok none
  else if maxSafeInteger < offset + length then .error .overflow
  else .ok (some (offset + length).toNat)

def resolveFileAllocation (offset length : Int) : Except Errno (Option ℕ) :=
  resolveFileRange offset length

/-- The bytes of a file after `resizeOpenFile`. -/
def resizeBytes (bytes : Bytes) (size : ℕ) : Bytes := zeroPad (bytes.take size) size

namespace OpenFile

/-- The `writable` field; standard streams and directories have none. -/
def writable (file : OpenFile) : Bool :=
  match file.kind with
  | .file _ writable _ => writable
  | .pipe .write _ => true
  | _ => false

def canWriteFile (file : OpenFile) : Bool := file.writable && hasRight file.rights rightFdWrite

def canReadFile (file : OpenFile) : Bool := hasRight file.rights rightFdRead

def canResizeFile (file : OpenFile) : Bool :=
  file.writable && hasRight file.rights rightFdFilestatSetSize

def canAllocateFile (file : OpenFile) : Bool :=
  file.writable && hasRight file.rights rightFdAllocate

end OpenFile

namespace World

variable (w : World)

/-- The result of a call that moves bytes. -/
abbrev IoResult := World × Memory × Except Failure Unit

/-- Changes a file record. -/
def modifyRecord (record : ℕ) (f : FileRecord → FileRecord) : World :=
  w.setHost { w.host with records := w.host.records.modify record f }

/-- Sets an offset. -/
def setOffset (offset value : ℕ) : World :=
  w.setHost { w.host with offsets := w.host.offsets.modify offset fun _ => value }

/-- Neither a number with a directory behind it nor a preopened one can be read or written. -/
def isDirectoryFd (fd : Int) : Bool :=
  fd = workspaceFd || fd = tmpFd || some fd = w.runtime.packageRootFd ||
    ((w.openFile fd).any OpenFile.isOpenDirectory)

/-- A changed workspace file is no longer the package's. -/
def markOpenFileDirty (file : OpenFile) (record : ℕ) : World :=
  if file.mount = some .workspace then
    (w.modifyRecord record fun r => { r with fallback := false }).markWorkspaceDirty
  else w

/-- Write chunks into a file from an offset on; the world and the offset behind them. -/
def writeOpenFileAt (file : OpenFile) (record : ℕ) (chunks : List Bytes) (offset : ℕ) :
    World × ℕ :=
  let loop := writeChunks ⟨(w.host.records.get record).bytes, offset, false⟩ chunks
  let written := w.modifyRecord record fun r => { r with bytes := loop.bytes }
  (if loop.changed then written.markOpenFileDirty file record else written, loop.offset)

/-- Writes to a file, at its end for appends. -/
def writeOpenFile (file : OpenFile) (record offset : ℕ) (chunks : List Bytes) : World :=
  let start :=
    if hasFlag file.fdflags fdflagsAppend then (w.host.records.get record).bytes.length
    else w.host.offsets.get offset
  let written := w.writeOpenFileAt file record chunks start
  written.1.setOffset offset written.2

/-- Cuts or fills a file. -/
def resizeOpenFile (file : OpenFile) (record size : ℕ) : World :=
  if (w.host.records.get record).bytes.length = size then w
  else
    (w.modifyRecord record fun r => { r with bytes := resizeBytes r.bytes size }).markOpenFileDirty
      file record

/-- Send chunks to standard output or standard error. -/
def writeStdio (stdioFd : Int) (chunks : List Bytes) : World :=
  w.setHost
    (if stdioFd = stdoutFd then { w.host with stdout := w.host.stdout ++ chunks }
     else { w.host with stderr := w.host.stderr ++ chunks })

/-! ### Writing -/

/-- Writes to an output. -/
def fdWriteStdio (mem : Memory) (file : OpenFile) (stdioFd iovsPtr iovsLen nwrittenPtr : Int) :
    IoResult :=
  if stdioFd ≠ stdoutFd ∧ stdioFd ≠ stderrFd then
    (w, mem.finishU32 nwrittenPtr 0 (.error (.errno .badf)))
  else if hasRight file.rights rightFdWrite = false then
    (w, mem.finishU32 nwrittenPtr 0 (.error (.errno .notcapable)))
  else
    match readIovChunks mem iovsPtr iovsLen with
    | none => (w, mem, .error .throws)
    | some ⟨chunks, total⟩ =>
        match mem.writeU32 nwrittenPtr total with
        | none => (w, mem, .error .throws)
        | some mem' => (w.writeStdio stdioFd chunks, mem', .ok ())

/-- Writes to a pipe. -/
def fdWritePipe (mem : Memory) (file : OpenFile) (direction : Direction) (pipe : ℕ)
    (iovsPtr iovsLen nwrittenPtr : Int) : IoResult :=
  match mem.writeU32 nwrittenPtr 0 with
  | none => (w, mem, .error .throws)
  | some mem₀ =>
      if direction ≠ .write then (w, mem₀, .error (.errno .badf))
      else if hasRight file.rights rightFdWrite = false then
        (w, mem₀, .error (.errno .notcapable))
      else if (w.host.pipes.get pipe).readers = 0 then (w, mem₀, .error (.errno .pipe))
      else
        match readIovChunks mem₀ iovsPtr iovsLen with
        | none => (w, mem₀, .error .throws)
        | some ⟨chunks, total⟩ =>
            if pipeBufferLimit < (w.host.pipes.get pipe).bytes.length + total then
              (w, mem₀, .error (.errno .again))
            else
              (w.setHost (w.host.modifyPipe pipe fun p =>
                  { p with bytes := p.bytes ++ zeroPad chunks.flatten total }),
                mem₀.finishU32 nwrittenPtr total (.ok ()))

/-- The import `fd_write`. -/
def fdWrite (mem : Memory) (fd iovsPtr iovsLen nwrittenPtr : Int) : IoResult :=
  match w.openFile fd with
  | none =>
      if fd ≠ stdoutFd ∧ fd ≠ stderrFd then
        (w, mem.finishU32 nwrittenPtr 0 (.error (.errno .badf)))
      else
        match readIovChunks mem iovsPtr iovsLen with
        | none => (w, mem, .error .throws)
        | some ⟨chunks, total⟩ =>
            match mem.writeU32 nwrittenPtr total with
            | none => (w, mem, .error .throws)
            | some mem' => (w.writeStdio fd chunks, mem', .ok ())
  | some file =>
      match file.kind with
      | .pipe direction pipe =>
          w.fdWritePipe mem file direction pipe iovsPtr iovsLen nwrittenPtr
      | .stdio stdioFd => w.fdWriteStdio mem file stdioFd iovsPtr iovsLen nwrittenPtr
      | .directory .. => (w, mem.finishU32 nwrittenPtr 0 (.error (.errno .notcapable)))
      | .file record _ offset =>
          if file.canWriteFile = false then
            (w, mem.finishU32 nwrittenPtr 0 (.error (.errno .notcapable)))
          else
            match readIovChunks mem iovsPtr iovsLen with
            | none => (w, mem, .error .throws)
            | some ⟨chunks, total⟩ =>
                match mem.writeU32 nwrittenPtr total with
                | none => (w, mem, .error .throws)
                | some mem' => (w.writeOpenFile file record offset chunks, mem', .ok ())

/-- The import `fd_pwrite`. -/
def fdPwrite (mem : Memory) (fd iovsPtr iovsLen offset nwrittenPtr : Int) : IoResult :=
  match mem.writeU32 nwrittenPtr 0 with
  | none => (w, mem, .error .throws)
  | some mem₀ =>
      if w.isDirectoryFd fd = true then (w, mem₀, .error (.errno .isdir))
      else
        match w.openFile fd with
        | none => (w, mem₀, .error (.errno (w.knownFd fd .notcapable)))
        | some file =>
            match file.kind with
            | .file record _ _ =>
                if file.canWriteFile = false then (w, mem₀, .error (.errno .notcapable))
                else
                  match resolveFileSize offset with
                  | .error errno => (w, mem₀, .error (.errno errno))
                  | .ok start =>
                      match readIovChunks mem₀ iovsPtr iovsLen with
                      | none => (w, mem₀, .error .throws)
                      | some ⟨chunks, total⟩ =>
                          match resolveFileRange start total with
                          | .error errno => (w, mem₀, .error (.errno errno))
                          | .ok _ =>
                              ((w.writeOpenFileAt file record chunks start).1,
                                mem₀.finishU32 nwrittenPtr total (.ok ()))
            | _ => (w, mem₀, .error (.errno .badf))

/-! ### Reading -/

/-- Reads from a pipe. -/
def fdReadPipe (mem : Memory) (file : OpenFile) (direction : Direction) (pipe : ℕ)
    (iovsPtr iovsLen nreadPtr : Int) : IoResult :=
  match mem.writeU32 nreadPtr 0 with
  | none => (w, mem, .error .throws)
  | some mem₀ =>
      if direction ≠ .read then (w, mem₀, .error (.errno .badf))
      else if hasRight file.rights rightFdRead = false then
        (w, mem₀, .error (.errno .notcapable))
      else if (w.host.pipes.get pipe).bytes = [] then
        (w, mem₀,
          if 0 < (w.host.pipes.get pipe).writers then .error (.errno .again) else .ok ())
      else
        match readIntoIovs mem₀ (w.host.pipes.get pipe).bytes 0 iovsPtr iovsLen with
        | none => (w, mem₀, .error .throws)
        | some s =>
            (w.setHost (w.host.modifyPipe pipe fun p => { p with bytes := p.bytes.drop s.total }),
              s.mem.finishU32 nreadPtr s.total (.ok ()))

/-- Read from standard input. -/
def readStdin (mem : Memory) (iovsPtr iovsLen nreadPtr : Int) : IoResult :=
  match readIntoIovs mem w.runtime.stdin w.runtime.stdinOffset iovsPtr iovsLen with
  | none => (w, mem, .error .throws)
  | some s =>
      ({ w with
          runtime := { w.runtime with stdinOffset := w.runtime.stdinOffset + s.total } },
        s.mem.finishU32 nreadPtr s.total (.ok ()))

/-- Reads from standard input. -/
def fdReadStdio (mem : Memory) (file : OpenFile) (stdioFd iovsPtr iovsLen nreadPtr : Int) :
    IoResult :=
  match mem.writeU32 nreadPtr 0 with
  | none => (w, mem, .error .throws)
  | some mem₀ =>
      if stdioFd ≠ stdinFd then (w, mem₀, .error (.errno .badf))
      else if hasRight file.rights rightFdRead = false then
        (w, mem₀, .error (.errno .notcapable))
      else w.readStdin mem₀ iovsPtr iovsLen nreadPtr

/-- Read a regular file at its offset. -/
def readOpenFile (mem : Memory) (record offset : ℕ) (iovsPtr iovsLen nreadPtr : Int) :
    IoResult :=
  match readIntoIovs mem (w.host.records.get record).bytes (w.host.offsets.get offset) iovsPtr
      iovsLen with
  | none => (w, mem, .error .throws)
  | some s =>
      (w.setOffset offset (w.host.offsets.get offset + s.total),
        s.mem.finishU32 nreadPtr s.total (.ok ()))

/-- The import `fd_read`. -/
def fdRead (mem : Memory) (fd iovsPtr iovsLen nreadPtr : Int) : IoResult :=
  match w.openFile fd with
  | some ⟨.pipe direction pipe, mount, path, rights, fdflags⟩ =>
      w.fdReadPipe mem ⟨.pipe direction pipe, mount, path, rights, fdflags⟩ direction pipe iovsPtr
        iovsLen nreadPtr
  | some ⟨.stdio stdioFd, mount, path, rights, fdflags⟩ =>
      w.fdReadStdio mem ⟨.stdio stdioFd, mount, path, rights, fdflags⟩ stdioFd iovsPtr iovsLen
        nreadPtr
  | some ⟨.directory .., _, _, _, _⟩ => (w, mem.finishU32 nreadPtr 0 (.error (.errno .isdir)))
  | some ⟨.file record _ offset, _, _, _, _⟩ =>
      if w.isDirectoryFd fd = true then (w, mem.finishU32 nreadPtr 0 (.error (.errno .isdir)))
      else w.readOpenFile mem record offset iovsPtr iovsLen nreadPtr
  | none =>
      if w.isDirectoryFd fd = true then (w, mem.finishU32 nreadPtr 0 (.error (.errno .isdir)))
      else if fd ≠ stdinFd then (w, mem.finishU32 nreadPtr 0 (.error (.errno .badf)))
      else w.readStdin mem iovsPtr iovsLen nreadPtr

/-- The import `fd_pread`. -/
def fdPread (mem : Memory) (fd iovsPtr iovsLen offset nreadPtr : Int) : IoResult :=
  match mem.writeU32 nreadPtr 0 with
  | none => (w, mem, .error .throws)
  | some mem₀ =>
      if w.isDirectoryFd fd = true then (w, mem₀, .error (.errno .isdir))
      else
        match w.openFile fd with
        | none => (w, mem₀, .error (.errno (w.knownFd fd .notcapable)))
        | some file =>
            match file.kind with
            | .file record _ _ =>
                if file.canReadFile = false then (w, mem₀, .error (.errno .notcapable))
                else
                  match resolveFileSize offset with
                  | .error errno => (w, mem₀, .error (.errno errno))
                  | .ok start =>
                      match readIntoIovs mem₀ (w.host.records.get record).bytes start iovsPtr
                          iovsLen with
                      | none => (w, mem₀, .error .throws)
                      | some s => (w, s.mem.finishU32 nreadPtr s.total (.ok ()))
            | _ => (w, mem₀, .error (.errno .badf))

/-! ### Offsets and sizes -/

/-- The position a seek is relative to. `none`: a directory has no end to seek from. -/
def seekBase (file : OpenFile) (offset : ℕ) (whence : Int) : Except Failure Int :=
  if whence = 0 then .ok 0
  else if whence = 1 then .ok (w.host.offsets.get offset)
  else if whence = 2 then
    match file.record? with
    | some record => .ok (w.host.records.get record).bytes.length
    | none => .error .throws
  else .error (.errno .inval)

/-- The offset that a seek leads to. -/
def resolveFileSeekOffset (file : OpenFile) (offset : ℕ) (delta whence : Int) :
    Except Failure ℕ :=
  match w.seekBase file offset whence with
  | .error failure => .error failure
  | .ok base =>
      if base + delta < 0 then .error (.errno .inval)
      else if maxSafeInteger < base + delta then .error (.errno .overflow)
      else .ok (base + delta).toNat

/-- The address of the offset of a descriptor that has one. -/
def offset? (file : OpenFile) : Option ℕ :=
  match file.kind with
  | .directory _ _ offset => some offset
  | .file _ _ offset => some offset
  | _ => none

/-- The import `fd_seek`. -/
def fdSeek (mem : Memory) (fd delta whence newOffsetPtr : Int) : IoResult :=
  match w.openFile fd with
  | none => (w, mem, .error (.errno (w.knownFd fd .access)))
  | some file =>
      match offset? file with
      | none => (w, mem, .error (.errno (w.knownFd fd .access)))
      | some offset =>
          match w.resolveFileSeekOffset file offset delta whence with
          | .error failure => (w, mem, .error failure)
          | .ok value =>
              (w.setOffset offset value,
                match mem.writeU64 newOffsetPtr value with
                | none => (mem, .error .throws)
                | some mem' => (mem', .ok ()))

/-- The import `fd_tell`. -/
def fdTell (mem : Memory) (fd offsetPtr : Int) : IoResult :=
  match w.openFile fd with
  | none => (w, mem, .error (.errno (w.knownFd fd .access)))
  | some file =>
      match offset? file with
      | none => (w, mem, .error (.errno (w.knownFd fd .access)))
      | some offset =>
          (w,
            match mem.writeU64 offsetPtr (w.host.offsets.get offset) with
            | none => (mem, .error .throws)
            | some mem' => (mem', .ok ()))

/-- The errno of a call on the content of a file for a number outside the table. -/
def notInTable (fd : Int) : Errno :=
  match w.fdStat fd with
  | none => .badf
  | some stat => if stat.filetype = .directory then .isdir else .notcapable

/-- Resize a descriptor. Only a regular file has bytes to resize. -/
def resizeDescriptor (file : OpenFile) (size : ℕ) : World × Except Failure Unit :=
  match file.record? with
  | some record => (w.resizeOpenFile file record size, .ok ())
  | none => (w, .error .throws)

/-- The import `fd_filestat_set_size`. -/
def fdFilestatSetSize (fd size : Int) : World × Except Failure Unit :=
  match w.openFile fd with
  | none => (w, .error (.errno (w.notInTable fd)))
  | some file =>
      if file.isOpenDirectory then (w, .error (.errno .isdir))
      else if file.canResizeFile = false then (w, .error (.errno .notcapable))
      else
        match resolveFileSize size with
        | .error errno => (w, .error (.errno errno))
        | .ok size => w.resizeDescriptor file size

/-- Grow a descriptor to at least a size. -/
def growDescriptor (file : OpenFile) (size : ℕ) : World × Except Failure Unit :=
  match file.record? with
  | some record =>
      (if (w.host.records.get record).bytes.length < size then w.resizeOpenFile file record size
       else w, .ok ())
  | none => (w, .error .throws)

/-- The import `fd_allocate`. -/
def fdAllocate (fd offset length : Int) : World × Except Failure Unit :=
  match w.openFile fd with
  | none => (w, .error (.errno (w.notInTable fd)))
  | some file =>
      if file.isOpenDirectory then (w, .error (.errno .isdir))
      else if file.canAllocateFile = false then (w, .error (.errno .notcapable))
      else
        match resolveFileAllocation offset length with
        | .error errno => (w, .error (.errno errno))
        | .ok none => (w, .ok ())
        | .ok (some size) => w.growDescriptor file size

end World

end WasmHost

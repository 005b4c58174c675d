import WasmHost.Core.BinaryCursor
import WasmHost.Lib.ByteMemory

/-!
# The launcher of a virtual executable

`VIRTUAL_EXECUTABLE_WASM`, the module that stands at the path of a registered executable, on its
memory of 256 pages. It takes its arguments and environment from the host, puts a request frame
together at `requestBuf`, writes the frame to the device and passes the response on.
-/

namespace WasmHost

namespace Launcher

/-- The memory of an instance. -/
abbrev Mem := ByteMemory UInt8

/-- `(memory 256)`. -/
def memorySize : ℕ := 256 * 65536

def argcPtr : ℕ := 0
def argvSizePtr : ℕ := 4
def nreadPtr : ℕ := 8
def fdPtr : ℕ := 12
def writtenPtr : ℕ := 16
def envcPtr : ℕ := 20
def envSizePtr : ℕ := 24
def deviceName : ℕ := 64
def execPath : ℕ := 128
def iovec : ℕ := 512
def argvPtrs : ℕ := 1024
def argvBuf : ℕ := 65536
def envPtrs : ℕ := 262144
def envBuf : ℕ := 524288
def stdinBuf : ℕ := 1048576
def requestBuf : ℕ := 2097152
def responseBuf : ℕ := 4194304
def responseCap : ℕ := 8388608

/-! ### Instructions

An access outside the memory traps, which is `none`. No address wraps around: each is the sum of
a small constant and of an address that an access before it has checked. -/

/-- Reads a word. -/
def load32 (m : Mem) (addr : ℕ) : Option ℕ :=
  if addr + 4 ≤ memorySize then some (ofLittleEndian (m.read addr 4)) else none

/-- Writes a word. -/
def store32 (m : Mem) (addr value : ℕ) : Option Mem :=
  if addr + 4 ≤ memorySize then some (m.write addr (littleEndian 4 value)) else none

/-- `memory.copy`. -/
def memoryCopy (m : Mem) (dest source len : ℕ) : Option Mem :=
  if dest + len ≤ memorySize ∧ source + len ≤ memorySize then
    some (m.write dest (m.read source len))
  else none

/-! ### Calls to the host

The launcher drops what the calls return, so an errno is a call that changes nothing. -/

/-- What the calls on descriptors do on the host, whose state is in `σ`. -/
structure Host (σ : Type) where
  /-- A path relative to the root, and the new descriptor. -/
  pathOpen : Text → σ → Option ℕ × σ
  /-- The number of bytes written. -/
  fdWrite : ℕ → Bytes → σ → Option ℕ × σ
  /-- The bytes read into a buffer of this size. -/
  fdRead : ℕ → ℕ → σ → Option Bytes × σ

/-- The bytes that the strings take, each with a NUL behind it. -/
def textsSize (items : List Bytes) : ℕ := (items.map fun item => item.length + 1).sum

/-- `args_sizes_get` and `environ_sizes_get`. -/
def sizesGet (m : Mem) (items : List Bytes) (countPtr sizePtr : ℕ) : Mem :=
  if items.length < 2 ^ 32 ∧ textsSize items < 2 ^ 32 then
    (m.write countPtr (littleEndian 4 items.length)).write sizePtr
      (littleEndian 4 (textsSize items))
  else m

/-- The loop of `write_buffer_array`: it ends early where the next string does not fit. -/
def writeBuffers (m : Mem) : List Bytes → ℕ → ℕ → Mem
  | [], _, _ => m
  | item :: rest, ptr, buffer =>
    let m := m.write ptr (littleEndian 4 buffer)
    if buffer + item.length ≤ memorySize then
      let m := m.write buffer item
      if buffer + item.length + 1 ≤ memorySize then
        writeBuffers (m.write (buffer + item.length) [0]) rest (ptr + 4)
          (buffer + item.length + 1)
      else m
    else m

/-- `write_buffer_array`, for `args_get` and `environ_get`. -/
def writeBufferArray (m : Mem) (items : List Bytes) (ptrBuffer buffer : ℕ) : Mem :=
  if ptrBuffer + 4 * items.length ≤ memorySize then writeBuffers m items ptrBuffer buffer else m

variable {σ : Type}

/-- `path_open` on the root with the name at `path`. -/
def pathOpen (host : Host σ) (m : Mem) (path pathLen fdPtr : ℕ) (s : σ) : Mem × σ :=
  match decodeText (m.read path pathLen) with
  | none => (m, s)
  | some name =>
    match host.pathOpen name s with
    | (some fd, s) => (m.write fdPtr (littleEndian 4 fd), s)
    | (none, s) => (m, s)

/-- `fd_write` of one buffer. -/
def fdWrite (host : Host σ) (m : Mem) (fd iovs writtenPtr : ℕ) (s : σ) : Mem × σ :=
  let buf := ofLittleEndian (m.read iovs 4)
  let bufLen := ofLittleEndian (m.read (iovs + 4) 4)
  if buf + bufLen ≤ memorySize then
    match host.fdWrite fd (m.read buf bufLen) s with
    | (some written, s) => (m.write writtenPtr (littleEndian 4 written), s)
    | (none, s) => (m, s)
  else (m, s)

/-- `fd_read` into one buffer. A read that fails has read nothing. -/
def fdRead (host : Host σ) (m : Mem) (fd iovs nreadPtr : ℕ) (s : σ) : Mem × σ :=
  let buf := ofLittleEndian (m.read iovs 4)
  let bufLen := ofLittleEndian (m.read (iovs + 4) 4)
  if buf + bufLen ≤ memorySize then
    match host.fdRead fd bufLen s with
    | (some bytes, s) =>
      ((m.write buf bytes).write nreadPtr (littleEndian 4 bytes.length), s)
    | (none, s) => (m.write nreadPtr (littleEndian 4 0), s)
  else (m.write nreadPtr (littleEndian 4 0), s)

/-! ### The module -/

/-- The memory of a new instance, with its two data segments; `none` if the path does not fit. -/
def instantiate (path : Bytes) : Option Mem :=
  if execPath + path.length ≤ memorySize then
    let m := ByteMemory.write (fun _ => 0) deviceName
      (encodeText "dev/wasm-host-virtual-exec".toList)
    some (m.write execPath path)
  else none

/-- The first NUL from `cursor` on. -/
def findNul (m : Mem) (cursor : ℕ) : Option ℕ :=
  if cursor < memorySize then if m cursor = 0 then some cursor else findNul m (cursor + 1)
  else none
termination_by memorySize - cursor

/-- `$strlen`. -/
def strlen (m : Mem) (ptr : ℕ) : Option ℕ := (findNul m ptr).map (· - ptr)

/-- `$write_record`: the memory and the cursor behind the record. -/
def writeRecord (m : Mem) (cursor source : ℕ) : Option (Mem × ℕ) := do
  let len ← strlen m source
  let m ← store32 m cursor len
  let m ← memoryCopy m (cursor + 4) source len
  return (m, cursor + 4 + len)

theorem writeRecord_lt {m m' : Mem} {cursor cursor' source : ℕ}
    (h : writeRecord m cursor source = some (m', cursor')) :
    cursor < cursor' ∧ cursor' ≤ memorySize := by
  simp only [writeRecord, memoryCopy, Option.bind_eq_bind, Option.pure_def,
    Option.bind_eq_some_iff, Option.ite_none_right_eq_some, Option.some.injEq, Prod.mk.injEq] at h
  obtain ⟨len, -, m₁, -, m₂, ⟨⟨hroom, -⟩, -⟩, -, rfl⟩ := h
  omega

/-- The loops over the arguments and over the environment, from `index` on. -/
def writeRecords (countPtr ptrs : ℕ) (m : Mem) (cursor index : ℕ) : Option (Mem × ℕ) :=
  match load32 m countPtr with
  | none => none
  | some count =>
    if count ≤ index then some (m, cursor)
    else
      match load32 m (ptrs + 4 * index) with
      | none => none
      | some source =>
        match h : writeRecord m cursor source with
        | none => none
        | some (m', cursor') =>
          have := writeRecord_lt h
          writeRecords countPtr ptrs m' cursor' (index + 1)
termination_by memorySize - cursor

/-- The request frame, with no standard input; the memory and the end of the frame. -/
def writeRequest (m : Mem) (execPathLen : ℕ) : Option (Mem × ℕ) := do
  let cursor := requestBuf
  let m ← store32 m cursor 0x31565855
  let cursor := cursor + 4
  let m ← store32 m cursor execPathLen
  let cursor := cursor + 4
  let m ← memoryCopy m cursor execPath execPathLen
  let cursor := cursor + execPathLen
  let m ← store32 m cursor (← load32 m argcPtr)
  let cursor := cursor + 4
  let m ← store32 m cursor (← load32 m envcPtr)
  let cursor := cursor + 4
  let m ← store32 m cursor 0
  let cursor := cursor + 4
  let (m, cursor) ← writeRecords argcPtr argvPtrs m cursor 0
  let (m, cursor) ← writeRecords envcPtr envPtrs m cursor 0
  let m ← memoryCopy m cursor stdinBuf 0
  return (m, cursor)

/-- Open the device, write the request that ends at `cursor` and read the response. -/
def exchange (host : Host σ) (m : Mem) (cursor : ℕ) (s : σ) : Option (Mem × σ) := do
  let (m, s) := pathOpen host m deviceName 29 fdPtr s
  let fd ← load32 m fdPtr
  let m ← store32 m iovec requestBuf
  let m ← store32 m (iovec + 4) (cursor - requestBuf)
  let (m, s) := fdWrite host m fd iovec writtenPtr s
  let m ← store32 m iovec responseBuf
  let m ← store32 m (iovec + 4) responseCap
  return fdRead host m fd iovec nreadPtr s

/-- Pass the response on. The code with which the process exits. -/
def report (host : Host σ) (m : Mem) (s : σ) : Option (σ × BitVec 32) := do
  let responseLen ← load32 m nreadPtr
  if responseLen < 16 then return (s, 0)
  let returncode ← load32 m (responseBuf + 4)
  let stdoutLen ← load32 m (responseBuf + 8)
  let stderrLen ← load32 m (responseBuf + 12)
  let m ← store32 m iovec (responseBuf + 16)
  let m ← store32 m (iovec + 4) stdoutLen
  let (m, s) := fdWrite host m 1 iovec writtenPtr s
  let m ← store32 m iovec ((responseBuf + 16 + stdoutLen) % 2 ^ 32)
  let m ← store32 m (iovec + 4) stderrLen
  let (_, s) := fdWrite host m 2 iovec writtenPtr s
  return (s, BitVec.ofNat 32 returncode)

/-- The memory after the calls that fetch arguments and environment. -/
def fetch (m : Mem) (args envs : List Bytes) : Mem :=
  let m := sizesGet m args argcPtr argvSizePtr
  let m := writeBufferArray m args argvPtrs argvBuf
  let m := sizesGet m envs envcPtr envSizePtr
  writeBufferArray m envs envPtrs envBuf

/-- `_start`. -/
def start (host : Host σ) (path : Bytes) (args envs : List Bytes) (s : σ) :
    Option (σ × BitVec 32) := do
  let m ← instantiate path
  let (m, cursor) ← writeRequest (fetch m args envs) path.length
  let (m, s) ← exchange host m cursor s
  report host m s

/-! ### The descriptors of a guest -/

/-- `VirtualExecutableBridgeFile`. -/
structure VirtualExecutableBridgeFile where
  request : Bytes
  response : Option Bytes
  cursor : ℕ
  deriving DecidableEq

namespace VirtualExecutableBridgeFile

/-- The file that `VirtualExecutableFileSystem` opens. -/
def new : VirtualExecutableBridgeFile := ⟨[], none, 0⟩

/-- `start_seek` from the start of the file. -/
def startSeek (file : VirtualExecutableBridgeFile) (offset : ℕ) : VirtualExecutableBridgeFile :=
  { file with cursor := offset }

/-- `poll_write`. -/
def pollWrite (file : VirtualExecutableBridgeFile) (buf : Bytes) : VirtualExecutableBridgeFile :=
  { file with request := file.request ++ buf }

/-- `poll_read`. The first read asks the registry, and starts at the front of its response. -/
def pollRead (invokeGuest : Bytes → Bytes) (file : VirtualExecutableBridgeFile) (capacity : ℕ) :
    Bytes × VirtualExecutableBridgeFile :=
  let (response, cursor) := match file.response with
    | some response => (response, file.cursor)
    | none => (invokeGuest file.request, 0)
  let bytes := (response.drop cursor).take capacity
  (bytes, { file with response := some response, cursor := cursor + bytes.length })

end VirtualExecutableBridgeFile

/-- What a path leads to. -/
inductive OpenedFile
  | bridge (file : VirtualExecutableBridgeFile)
  | file (content : Bytes)
  deriving DecidableEq

/-- The launcher opens one file at most. It is kept with its offset. -/
structure GuestFiles where
  opened : Option (ℕ × OpenedFile)
  stdin : Bytes
  stdout : Bytes
  stderr : Bytes
  deriving DecidableEq

/-- The standard streams of a new process. -/
def GuestFiles.ofStdin (stdin : Bytes) : GuestFiles := ⟨none, stdin, [], []⟩

/-- The sandbox around a guest: the files that its paths lead to, `invoke_guest`, and the number
of the next descriptor. -/
structure Sandbox where
  opens : Text → Option OpenedFile
  invokeGuest : Bytes → Bytes
  nextFd : ℕ
  nextFd_gt : 2 < nextFd
  nextFd_lt : nextFd < 2 ^ 32

/-- `VIRTUAL_EXEC_BRIDGE_PATH`. -/
def virtualExecBridgePath : Text := "/dev/wasm-host-virtual-exec".toList

/-- `VirtualExecutableFileSystem::open`, over the files of the sandbox. -/
def virtualExecutableFileSystem (inner : Text → Option Bytes) (path : Text) : Option OpenedFile :=
  if path = virtualExecBridgePath then some (.bridge .new) else (inner path).map .file

/-- The calls on descriptors. Standard input can be read only. -/
def Sandbox.host (sandbox : Sandbox) : Host GuestFiles where
  pathOpen name s :=
    match sandbox.opens ('/' :: name) with
    | some file => (some sandbox.nextFd, { s with opened := some (0, file) })
    | none => (none, s)
  fdWrite fd data s :=
    if fd = 1 then (some data.length, { s with stdout := s.stdout ++ data })
    else if fd = 2 then (some data.length, { s with stderr := s.stderr ++ data })
    else if fd = sandbox.nextFd then
      match s.opened with
      | some (offset, .bridge file) =>
        (some data.length, { s with
          opened := some (offset + data.length, .bridge ((file.startSeek offset).pollWrite data)) })
      | some (offset, .file content) =>
        (some data.length, { s with
          opened := some (offset + data.length, .file (
            (content ++ List.replicate (offset - content.length) 0).take offset ++ data ++
              content.drop (offset + data.length))) })
      | none => (none, s)
    else (none, s)
  fdRead fd capacity s :=
    if fd = 0 then (some (s.stdin.take capacity), { s with stdin := s.stdin.drop capacity })
    else if fd = sandbox.nextFd then
      match s.opened with
      | some (offset, .bridge file) =>
        let (bytes, file) := (file.startSeek offset).pollRead sandbox.invokeGuest capacity
        (some bytes, { s with opened := some (offset + bytes.length, .bridge file) })
      | some (offset, .file content) =>
        let bytes := (content.drop offset).take capacity
        (some bytes, { s with opened := some (offset + bytes.length, .file content) })
      | none => (none, s)
    else (none, s)

end Launcher

end WasmHost

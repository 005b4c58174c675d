import WasmHost.Wasi.DescriptorNumbers
import WasmHost.Wasi.StandardInput
import WasmHost.Web.CommandWorker

/-!
# The output of a replaced process

A guest that calls `proc_exec` is replaced by a child command. The mode of either output stream is
chosen from the descriptor of the guest (`processExecOutputMode`): what the child writes is passed
on to the output of the guest as it is written, or it is captured and written to the descriptor when
the child has ended (`runProcessExec`).

* `outputObject`: what a write of the guest to a descriptor goes to (`fdWrite_outputObject`).
* `delivered_iff_routed`: the output of the child arrives there, all of it and in order, exactly
  when the stream is silent or its descriptor stands for that stream itself, or for a pipe with room
  or a writable file and the child does not fail.
-/

namespace WasmHost

open List

/-- The descriptor of an output. -/
def OutputStream.fd : OutputStream → Int
  | stdout => stdoutFd
  | stderr => stderrFd

/-- What is written to: a stream of the output of the guest, a pipe, or an open file, which the
descriptors that share it share the offset of. -/
inductive OutputObject
  | stdio (stream : OutputStream)
  | pipe (pipe : ℕ)
  | file (offset : ℕ)
  deriving DecidableEq

/-- `writeBytesToStdio`: whatever is not standard output is standard error. -/
def stdioStream (stdioFd : Int) : OutputStream := if stdioFd = stdoutFd then .stdout else .stderr

namespace World

variable (w : World)

/-- What a write of the guest to a descriptor goes to, if it may write there. -/
def outputObject (fd : Int) : Option OutputObject :=
  match w.openFile fd with
  | none => if fd = stdoutFd ∨ fd = stderrFd then some (.stdio (stdioStream fd)) else none
  | some file =>
    match file.kind with
    | .pipe direction pipe =>
      if direction = .write ∧ hasRight file.rights rightFdWrite = true ∧
        (w.host.pipes.get pipe).readers ≠ 0 then some (.pipe pipe) else none
    | .stdio stdioFd =>
      if (stdioFd = stdoutFd ∨ stdioFd = stderrFd) ∧ hasRight file.rights rightFdWrite = true then
        some (.stdio (stdioStream stdioFd)) else none
    | .directory .. => none
    | .file _ _ offset => if file.canWriteFile = true then some (.file offset) else none

/-- What `writeBytesToFd` writes a number of bytes to, unless it throws. -/
def bytesObject (fd : Int) (size : ℕ) : Option OutputObject :=
  match w.openFile fd with
  | none => if fd = stdoutFd ∨ fd = stderrFd then some (.stdio (stdioStream fd)) else none
  | some file =>
    match file.kind with
    | .pipe direction pipe =>
      if direction = .write ∧ (w.host.pipes.get pipe).readers ≠ 0 ∧
        (w.host.pipes.get pipe).bytes.length + size ≤ pipeBufferLimit then some (.pipe pipe)
      else none
    | .stdio stdioFd => some (.stdio (stdioStream stdioFd))
    | .directory .. => none
    | .file _ _ offset => if file.canWriteFile = true then some (.file offset) else none

/-! ### The child and its output -/

/-- Where an output of the child goes. -/
def processExecOutputMode (fd : Int) : OutputMode :=
  match w.openFile fd with
  | some file => if file.isOpenStdio then .inherit else .pipe
  | none => .inherit

end World

/-- A child command: what it writes, and the workspace that it returns. It fails (`none`) also when
`importWasiWorkspaceSnapshot` refuses that workspace: what was captured is lost then, too. -/
structure ChildRun where
  writes : List (OutputStream × Bytes)
  returned : Option (Option World.SnapshotTree)

/-- Bytes of the child that have been written to an object. -/
structure OutputDelivery where
  origin : OutputStream
  object : OutputObject
  bytes : Bytes

/-- The writer that a child is given, which holds the output of the guest. -/
structure ChildCommandOutputWriter where
  parentOutput : World
  deliveries : List OutputDelivery
  stdout : OutputMode
  stderr : OutputMode
  stdoutChunks : List Bytes
  stderrChunks : List Bytes

namespace ChildCommandOutputWriter

/-- Where an output goes. -/
def mode (writer : ChildCommandOutputWriter) : OutputStream → OutputMode
  | .stdout => writer.stdout
  | .stderr => writer.stderr

/-- Takes a chunk of the child. -/
def write (writer : ChildCommandOutputWriter) (stream : OutputStream) (chunk : Bytes) :
    ChildCommandOutputWriter :=
  match writer.mode stream with
  | .inherit =>
    { writer with
      parentOutput := writer.parentOutput.writeStdio stream.fd [chunk]
      deliveries := writer.deliveries ++ [⟨stream, .stdio stream, chunk⟩] }
  | .pipe =>
    match stream with
    | .stdout => { writer with stdoutChunks := writer.stdoutChunks ++ [chunk] }
    | .stderr => { writer with stderrChunks := writer.stderrChunks ++ [chunk] }

/-- `stdoutBytes` and `stderrBytes`. -/
def bytes (writer : ChildCommandOutputWriter) : OutputStream → Bytes
  | .stdout => writer.stdoutChunks.flatten
  | .stderr => writer.stderrChunks.flatten

end ChildCommandOutputWriter

/-- The guest while the call is carried out, and whether an error has been thrown. -/
structure ExecProgress where
  world : World
  deliveries : List OutputDelivery
  threw : Bool

/-- Writes what was captured. -/
def ExecProgress.writeProcessExecCapturedOutput (e : ExecProgress) (stream : OutputStream)
    (mode : OutputMode) (value : Bytes) : ExecProgress :=
  if e.threw ∨ mode ≠ .pipe ∨ value = [] then e
  else
    match e.world.bytesObject stream.fd value.length with
    | none => { e with threw := true }
    | some object =>
      { e with
        world := e.world.writeBytesToFd stream.fd value
        deliveries := e.deliveries ++ [⟨stream, object, value⟩] }

namespace World

variable (w : World)

/-- The writer at the start of the child, which has taken its input. -/
def execWriter : ChildCommandOutputWriter where
  parentOutput := w.processExecInputBytes stdinFd
  deliveries := []
  stdout := w.processExecOutputMode stdoutFd
  stderr := w.processExecOutputMode stderrFd
  stdoutChunks := []
  stderrChunks := []

/-- The workspace that a child returns takes the place of the one there is. -/
def exchangeWorkspace : Option SnapshotTree → World
  | some snapshot => (w.importWasiWorkspaceSnapshot snapshot).rebindOpenWorkspaceFiles
  | none => w

/-- Runs the child. -/
def runProcessExec (run : ChildRun) : ExecProgress :=
  let writer := run.writes.foldl (fun writer c => writer.write c.1 c.2) w.execWriter
  match run.returned with
  | none => ⟨writer.parentOutput, writer.deliveries, true⟩
  | some snapshot =>
    let e : ExecProgress :=
      ⟨writer.parentOutput.exchangeWorkspace snapshot, writer.deliveries, false⟩
    (e.writeProcessExecCapturedOutput .stdout writer.stdout (writer.bytes .stdout))
      |>.writeProcessExecCapturedOutput .stderr writer.stderr (writer.bytes .stderr)

end World

/-! ### The property -/

/-- What a child writes to a stream. -/
def ChildRun.bytes (run : ChildRun) (stream : OutputStream) : Bytes :=
  (run.writes.filter fun c => c.1 = stream).flatMap Prod.snd

/-- What has been delivered of a stream. -/
def deliveredBytes (deliveries : List OutputDelivery) (stream : OutputStream) : Bytes :=
  (deliveries.filter fun d => d.origin = stream).flatMap OutputDelivery.bytes

/-- The output of the child goes where the writes of the guest would go, complete and in order, and
nowhere else. -/
structure World.Delivered (w : World) (run : ChildRun) : Prop where
  objects : ∀ d ∈ (w.runProcessExec run).deliveries, d.bytes ≠ [] →
    w.outputObject d.origin.fd = some d.object
  complete : ∀ stream,
    deliveredBytes (w.runProcessExec run).deliveries stream = run.bytes stream

/-! ### The condition -/

namespace World

variable (w : World)

/-- How much has been written to a pipe before the bytes of a stream are: standard output comes
first. -/
def writtenBefore (run : ChildRun) (pipe : ℕ) : OutputStream → ℕ
  | .stdout => 0
  | .stderr => if w.outputObject stdoutFd = some (.pipe pipe) then (run.bytes .stdout).length else 0

/-- The descriptor of the stream stands for the stream itself, or for a pipe with room or a writable
file and the child does not fail. -/
def Routes (run : ChildRun) (stream : OutputStream) : Prop :=
  match w.outputObject stream.fd with
  | none => False
  | some (.stdio stream') => stream' = stream
  | some (.pipe pipe) => run.returned.isSome ∧
    ((w.processExecInputBytes stdinFd).host.pipes.get pipe).bytes.length +
      w.writtenBefore run pipe stream + (run.bytes stream).length ≤ pipeBufferLimit
  | some (.file _) => run.returned.isSome

/-- Either stream is silent or arrives. -/
def Routed (run : ChildRun) : Prop := ∀ stream, run.bytes stream = [] ∨ w.Routes run stream

end World

/-! ### Writes of the guest -/

namespace World

variable (w : World) {w' : World}

/-- A write of the guest to a descriptor that it may write to. -/
def guestWrite (fd : Int) (chunks : List Bytes) : World :=
  match w.openFile fd with
  | none => w.writeStdio fd chunks
  | some file =>
    match file.kind with
    | .pipe _ pipe =>
      w.setHost (w.host.modifyPipe pipe fun p => { p with bytes := p.bytes ++ chunks.flatten })
    | .stdio stdioFd => w.writeStdio stdioFd chunks
    | .directory .. => w
    | .file record _ offset => w.writeOpenFile file record offset chunks

theorem finishU32_error_ne_ok {mem mem' : Memory} {ptr : Int} {value : ℕ} {failure : Failure} :
    mem.finishU32 ptr value (.error failure) ≠ (mem', .ok ()) := by
  unfold Memory.finishU32
  split <;> simp

section

variable {mem mem' : Memory} {fd iovsPtr iovsLen nwrittenPtr : Int} {file : OpenFile} {w' : World}

theorem fdWriteStdio_ok {stdioFd : Int}
    (h : w.fdWriteStdio mem file stdioFd iovsPtr iovsLen nwrittenPtr = (w', mem', .ok ())) :
    ((stdioFd = stdoutFd ∨ stdioFd = stderrFd) ∧ hasRight file.rights rightFdWrite = true) ∧
      ∃ chunks, w' = w.writeStdio stdioFd chunks := by
  unfold fdWriteStdio at h
  split_ifs at h with hfd hright
  · exact absurd (Prod.ext_iff.1 h).2 finishU32_error_ne_ok
  · exact absurd (Prod.ext_iff.1 h).2 finishU32_error_ne_ok
  · refine ⟨⟨by tauto, by simpa using hright⟩, ?_⟩
    repeat' split at h
    all_goals first
      | exact ⟨_, (congrArg Prod.fst h).symm⟩
      | cases h

theorem fdWritePipe_ok {direction : Direction} {pipe : ℕ}
    (h : w.fdWritePipe mem file direction pipe iovsPtr iovsLen nwrittenPtr = (w', mem', .ok ())) :
    (direction = .write ∧ hasRight file.rights rightFdWrite = true ∧
      (w.host.pipes.get pipe).readers ≠ 0) ∧
    ∃ bytes, w' = w.setHost
      (w.host.modifyPipe pipe fun p => { p with bytes := p.bytes ++ bytes }) := by
  unfold fdWritePipe at h
  split at h
  · cases h
  split_ifs at h with hdirection hright hreaders
  · cases h
  · cases h
  · cases h
  refine ⟨⟨by simpa using hdirection, by simpa using hright, hreaders⟩, ?_⟩
  repeat' split at h
  all_goals first
    | exact ⟨_, (congrArg Prod.fst h).symm⟩
    | cases h

/-- A write that succeeds goes to the object of the descriptor. -/
theorem fdWrite_outputObject
    (h : w.fdWrite mem fd iovsPtr iovsLen nwrittenPtr = (w', mem', .ok ())) :
    (w.outputObject fd).isSome ∧ ∃ chunks, w' = w.guestWrite fd chunks := by
  unfold fdWrite at h
  unfold outputObject guestWrite
  cases hopen : w.openFile fd with
  | none =>
    simp only [hopen] at h ⊢
    split_ifs at h with hfd
    · exact absurd (Prod.ext_iff.1 h).2 finishU32_error_ne_ok
    · rw [if_pos (by tauto)]
      refine ⟨rfl, ?_⟩
      repeat' split at h
      all_goals first
        | exact ⟨_, (congrArg Prod.fst h).symm⟩
        | cases h
  | some file =>
    simp only [hopen] at h ⊢
    cases hkind : file.kind with
    | stdio =>
      simp only [hkind] at h ⊢
      obtain ⟨hright, hchunks⟩ := w.fdWriteStdio_ok h
      rw [if_pos hright]
      exact ⟨rfl, hchunks⟩
    | pipe =>
      simp only [hkind] at h ⊢
      obtain ⟨hright, bytes, hw'⟩ := w.fdWritePipe_ok h
      rw [if_pos hright]
      exact ⟨rfl, [bytes], by rw [hw', flatten_singleton]⟩
    | directory =>
      simp only [hkind] at h
      exact absurd (Prod.ext_iff.1 h).2 finishU32_error_ne_ok
    | file =>
      simp only [hkind] at h ⊢
      split_ifs at h with hcan
      · exact absurd (Prod.ext_iff.1 h).2 finishU32_error_ne_ok
      · rw [if_pos (by simpa using hcan)]
        refine ⟨rfl, ?_⟩
        repeat' split at h
        all_goals first
          | exact ⟨_, (congrArg Prod.fst h).symm⟩
          | cases h

end

variable {w}

theorem writeStdio_eq_guestWrite {stream : OutputStream}
    (h : w.outputObject stream.fd = some (.stdio stream)) (bytes : Bytes) :
    w.writeStdio stream.fd [bytes] = w.guestWrite stream.fd [bytes] := by
  unfold outputObject at h
  unfold guestWrite
  cases hopen : w.openFile stream.fd with
  | none => rfl
  | some file =>
    simp only [hopen] at h
    cases hkind : file.kind with
    | stdio =>
      simp only [hkind] at h ⊢
      split_ifs at h with hout
      obtain rfl := OutputObject.stdio.inj (Option.some.inj h)
      obtain rfl | rfl := hout.1 <;> rfl
    | pipe | directory | file => simp [hkind] at h

variable {object : OutputObject}

theorem writeBytesToFd_eq_guestWrite {fd : Int} {bytes : Bytes}
    (hbytes : w.bytesObject fd bytes.length = some object) :
    w.writeBytesToFd fd bytes = w.guestWrite fd [bytes] := by
  unfold bytesObject at hbytes
  unfold writeBytesToFd guestWrite
  cases hopen : w.openFile fd with
  | none =>
    simp only [hopen] at hbytes ⊢
    split_ifs at hbytes with hfd
    rw [if_pos hfd]
  | some file =>
    simp only [hopen] at hbytes ⊢
    cases hkind : file.kind with
    | stdio => rfl
    | pipe =>
      simp only [hkind] at hbytes ⊢
      split_ifs at hbytes with hpipe
      rw [writeBytesToPipe, if_pos hpipe, flatten_singleton]
    | directory => rfl
    | file =>
      simp only [hkind] at hbytes ⊢
      split_ifs at hbytes with hcan
      rw [if_pos hcan]

/-! ### Objects that stay -/

theorem outputObject_congr (hopen : ∀ fd, w'.openFile fd = w.openFile fd)
    (hreaders : ∀ p, (w'.host.pipes.get p).readers = (w.host.pipes.get p).readers) (fd : Int) :
    w'.outputObject fd = w.outputObject fd := by
  unfold outputObject
  rw [hopen]
  simp only [hreaders]

theorem bytesObject_congr (hopen : ∀ fd, w'.openFile fd = w.openFile fd)
    (hpipes : w'.host.pipes = w.host.pipes) (fd : Int) (size : ℕ) :
    w'.bytesObject fd size = w.bytesObject fd size := by
  unfold bytesObject
  rw [hopen, hpipes]

/-- Taking the input of a child leaves the references of the pipes alone. -/
theorem outputObject_processExecInputBytes (fd fd' : Int) :
    (w.processExecInputBytes fd).outputObject fd' = w.outputObject fd' := by
  refine outputObject_congr (fun fd => ?_) (fun p => ?_) fd'
  · rw [openFile, w.runtime_processExecInputBytes]
    rfl
  · unfold processExecInputBytes
    repeat' split
    all_goals first
      | rfl
      | simp only [setHost, Host.modifyPipe, Heap.get_modify]
        split <;> simp_all

/-- Binding a descriptor again gives it another record and leaves its object alone. -/
theorem rebindOpenFile_objects {fd : Int} {file : OpenFile} (hfile : w.openFile fd = some file) :
    (∀ fd', (w.rebindOpenFile fd file).outputObject fd' = w.outputObject fd') ∧
    (∀ fd' size, (w.rebindOpenFile fd file).bytesObject fd' size = w.bytesObject fd' size) ∧
    (w.rebindOpenFile fd file).host.pipes = w.host.pipes := by
  have hpipes : (w.rebindOpenFile fd file).host.pipes = w.host.pipes := by
    obtain h | ⟨_, _, _, _, _, _, _, _, _, ⟨_, h⟩ | ⟨_, _, _, h⟩⟩ := w.rebindOpenFile_cases fd file
    · rw [h]
    · rw [h]; rfl
    · rw [h]; rfl
  have hopen : ∀ fd', (w.rebindOpenFile fd file).openFile fd' = w.openFile fd' ∨
      ∃ old new writable offset, w.openFile fd' = some file ∧
      file.kind = .file old writable offset ∧
        (w.rebindOpenFile fd file).openFile fd' =
        some { file with kind := .file new writable offset } := by
    intro fd'
    by_cases hfd : fd' = fd
    · subst hfd
      obtain h | ⟨old, writable, offset, _, new, hkind, _, _, _, ⟨_, h⟩ | ⟨_, _, _, h⟩⟩ :=
        w.rebindOpenFile_cases fd' file
      · exact .inl (by rw [h])
      · exact .inr ⟨old, new, writable, offset, hfile, hkind, by
          rw [h]; exact OrdMap.get_set_self ..⟩
      · exact .inr ⟨old, new, writable, offset, hfile, hkind, by
          rw [h]; exact OrdMap.get_set_self ..⟩
    · exact .inl (w.openFile_rebindOpenFile_ne file hfd)
  refine ⟨fun fd' => ?_, fun fd' size => ?_, hpipes⟩
  · unfold outputObject
    rw [hpipes]
    obtain h | ⟨old, new, writable, offset, h, hkind, h'⟩ := hopen fd'
    · rw [h]
    · rw [h, h']
      simp [hkind, OpenFile.canWriteFile, OpenFile.writable]
  · unfold bytesObject
    rw [hpipes]
    obtain h | ⟨old, new, writable, offset, h, hkind, h'⟩ := hopen fd'
    · rw [h]
    · rw [h, h']
      simp [hkind, OpenFile.canWriteFile, OpenFile.writable]

theorem exchangeWorkspace_objects (snapshot : Option SnapshotTree) :
    (∀ fd, (w.exchangeWorkspace snapshot).outputObject fd = w.outputObject fd) ∧
    (∀ fd size, (w.exchangeWorkspace snapshot).bytesObject fd size = w.bytesObject fd size) ∧
    (w.exchangeWorkspace snapshot).host.pipes = w.host.pipes := by
  cases snapshot with
  | none => exact ⟨fun _ => rfl, fun _ _ => rfl, rfl⟩
  | some snapshot =>
    have himported := w.imported_importWasiWorkspaceSnapshot snapshot
    have hopen (fd : Int) : (w.importWasiWorkspaceSnapshot snapshot).openFile fd = w.openFile fd :=
      congrArg (fun r => r.openFiles.get fd) himported.runtime
    refine rebind_induction (P := fun w' => (∀ fd, w'.outputObject fd = w.outputObject fd) ∧
      (∀ fd size, w'.bytesObject fd size = w.bytesObject fd size) ∧
      w'.host.pipes = w.host.pipes) _ ?_ ?_
    · rintro w' fd file hfile ⟨ho, hb, hp⟩
      obtain ⟨ho', hb', hp'⟩ := rebindOpenFile_objects hfile
      exact ⟨fun fd => (ho' fd).trans (ho fd), fun fd size => (hb' fd size).trans (hb fd size),
        hp'.trans hp⟩
    · exact ⟨outputObject_congr hopen fun p => by rw [himported.pipes],
        bytesObject_congr hopen himported.pipes, himported.pipes⟩

/-- Bytes go to the object that the guest writes to, if there is room for them. -/
theorem bytesObject_eq_some_iff {fd : Int} {size : ℕ} {object' : OutputObject}
    (h : w.outputObject fd = some object) : w.bytesObject fd size = some object' ↔
      object' = object ∧ ∀ pipe, object = .pipe pipe →
        (w.host.pipes.get pipe).bytes.length + size ≤ pipeBufferLimit := by
  unfold outputObject at h
  unfold bytesObject
  cases hopen : w.openFile fd with
  | none =>
    simp only [hopen] at h ⊢
    split_ifs at h ⊢ with hfd
    obtain rfl := Option.some.inj h
    simp [eq_comm]
  | some file =>
    simp only [hopen] at h ⊢
    cases hkind : file.kind with
    | stdio =>
      simp only [hkind] at h ⊢
      split_ifs at h with hout
      obtain rfl := Option.some.inj h
      simp [eq_comm]
    | pipe =>
      simp only [hkind] at h ⊢
      split_ifs at h with hpipe
      obtain rfl := Option.some.inj h
      simp [hpipe, eq_comm, and_comm]
    | directory => simp [hkind] at h
    | file =>
      simp only [hkind] at h ⊢
      split_ifs at h ⊢ with hcan
      obtain rfl := Option.some.inj h
      simp [eq_comm]

theorem mode_inherit_iff {fd : Int} : w.processExecOutputMode fd = .inherit ↔
    w.openFile fd = none ∨ ∃ file, w.openFile fd = some file ∧ file.isOpenStdio := by
  unfold processExecOutputMode
  cases w.openFile fd with
  | none => simp
  | some file => cases hstdio : file.isOpenStdio <;> simp [hstdio]

/-- Output that is passed on has at most a standard stream for its object. -/
theorem outputObject_of_inherit {fd : Int} (h : w.processExecOutputMode fd = .inherit)
    (hobject : w.outputObject fd = some object) : ∃ stream, object = .stdio stream := by
  unfold outputObject at hobject
  obtain hnone | ⟨file, hopen, hstdio⟩ := mode_inherit_iff.1 h
  · simp only [hnone] at hobject
    split_ifs at hobject
    exact ⟨_, (Option.some.inj hobject).symm⟩
  · simp only [hopen] at hobject
    cases hkind : file.kind with
    | stdio =>
      simp only [hkind] at hobject
      split_ifs at hobject
      exact ⟨_, (Option.some.inj hobject).symm⟩
    | pipe _ _ | directory _ _ _ | file _ _ _ => simp [OpenFile.isOpenStdio, hkind] at hstdio

/-- Output that is captured has none. -/
theorem outputObject_of_pipe {fd : Int} (h : w.processExecOutputMode fd = .pipe)
    (stream : OutputStream) : w.outputObject fd ≠ some (.stdio stream) := by
  unfold processExecOutputMode at h
  unfold outputObject
  cases hopen : w.openFile fd with
  | none => simp [hopen] at h
  | some file =>
    cases hkind : file.kind with
    | stdio => simp [hopen, OpenFile.isOpenStdio, hkind] at h
    | directory => simp [hkind]
    | pipe _ _ | file _ _ _ => simp only [hkind]; split_ifs <;> simp

end World

/-! ### While the child runs -/

namespace ChildCommandOutputWriter

/-- What a writer has done with some writes since another one. -/
structure Wrote (start : ChildCommandOutputWriter) (writes : List (OutputStream × Bytes))
    (writer : ChildCommandOutputWriter) : Prop where
  mode : ∀ stream, writer.mode stream = start.mode stream
  openFile : ∀ fd, writer.parentOutput.openFile fd = start.parentOutput.openFile fd
  pipes : writer.parentOutput.host.pipes = start.parentOutput.host.pipes
  captured : ∀ stream, start.mode stream = .pipe → writer.bytes stream =
    start.bytes stream ++ (writes.filter fun c => c.1 = stream).flatMap Prod.snd
  deliveries : writer.deliveries = start.deliveries ++
    (writes.filter fun c => start.mode c.1 = .inherit).map fun c => ⟨c.1, .stdio c.1, c.2⟩

theorem Wrote.trans {start middle writer : ChildCommandOutputWriter}
    {writes writes' : List (OutputStream × Bytes)} (h : Wrote start writes middle)
    (h' : Wrote middle writes' writer) : Wrote start (writes ++ writes') writer where
  mode stream := (h'.mode stream).trans (h.mode stream)
  openFile fd := (h'.openFile fd).trans (h.openFile fd)
  pipes := h'.pipes.trans h.pipes
  captured stream hpipe := by
    rw [h'.captured stream ((h.mode stream).trans hpipe), h.captured stream hpipe, filter_append,
      flatMap_append, append_assoc]
  deliveries := by
    simp only [h'.deliveries, h.deliveries, h.mode, filter_append, map_append, append_assoc]

theorem wrote_write (start : ChildCommandOutputWriter) (stream : OutputStream) (chunk : Bytes) :
    Wrote start [(stream, chunk)] (start.write stream chunk) := by
  unfold write
  cases hmode : start.mode stream with
  | inherit =>
    refine ⟨?_, ?_, ?_, ?_, ?_⟩
    · intro stream'; cases stream' <;> rfl
    · intro fd; rfl
    · unfold World.writeStdio World.setHost; dsimp only; split <;> rfl
    · intro stream' hpipe
      have hne : stream ≠ stream' := by
        rintro rfl
        rw [hmode] at hpipe
        cases hpipe
      cases stream' <;> simp [bytes, hne]
    · simp [hmode]
  | pipe =>
    cases stream with
    | stdout | stderr =>
      refine ⟨?_, fun _ => rfl, rfl, ?_, by simp [hmode]⟩
      · intro stream'; cases stream' <;> rfl
      · intro stream' _; cases stream' <;> simp [bytes]

theorem wrote_foldl (start : ChildCommandOutputWriter) (writes : List (OutputStream × Bytes)) :
    Wrote start writes (writes.foldl (fun writer c => writer.write c.1 c.2) start) := by
  induction writes generalizing start with
  | nil => exact ⟨fun _ => rfl, fun _ => rfl, rfl, fun _ _ => by simp, by simp⟩
  | cons c writes ih => exact (wrote_write start c.1 c.2).trans (ih (start.write c.1 c.2))

end ChildCommandOutputWriter

/-! ### One stream at a time -/

/-- What has been delivered of a stream is all of it and went to the object of the guest. -/
def World.Arrived (w : World) (run : ChildRun) (deliveries : List OutputDelivery)
    (stream : OutputStream) : Prop :=
  deliveredBytes deliveries stream = run.bytes stream ∧
    ∀ d ∈ deliveries, d.origin = stream → d.bytes ≠ [] → w.outputObject stream.fd = some d.object

theorem World.delivered_iff_arrived (w : World) (run : ChildRun) :
    w.Delivered run ↔ ∀ stream, w.Arrived run (w.runProcessExec run).deliveries stream := by
  constructor
  · intro h stream
    exact ⟨h.complete stream, fun d hd horigin hne => horigin ▸ h.objects d hd hne⟩
  · intro h
    exact ⟨fun d hd hne => (h d.origin).2 d hd rfl hne, fun stream => (h stream).1⟩

/-- Only the deliveries of the stream count. -/
theorem World.arrived_congr {w : World} {run : ChildRun}
    {deliveries deliveries' : List OutputDelivery}
    {stream : OutputStream} (h : (deliveries.filter fun d => d.origin = stream) =
      deliveries'.filter fun d => d.origin = stream) :
    w.Arrived run deliveries stream ↔ w.Arrived run deliveries' stream := by
  have hmem (d : OutputDelivery) : (d ∈ deliveries ∧ d.origin = stream) ↔
      (d ∈ deliveries' ∧ d.origin = stream) := by
    have hd := congrArg (d ∈ ·) h
    simpa using hd
  unfold Arrived deliveredBytes
  rw [h]
  refine and_congr_right fun _ => ⟨fun hall d hd ho => ?_, fun hall d hd ho => ?_⟩
  · exact hall d ((hmem d).2 ⟨hd, ho⟩).1 ho
  · exact hall d ((hmem d).1 ⟨hd, ho⟩).1 ho

namespace World

variable {w : World} {run : ChildRun} {stream : OutputStream} {writer : ChildCommandOutputWriter}

variable (w run) in
/-- The deliveries while the child runs. -/
def passedOn : List OutputDelivery :=
  (run.writes.filter fun c => w.processExecOutputMode c.1.fd = .inherit).map fun c =>
    ⟨c.1, .stdio c.1, c.2⟩

theorem mode_execWriter (stream : OutputStream) :
    w.execWriter.mode stream = w.processExecOutputMode stream.fd := by
  cases stream <;> rfl

theorem passedOn_of_pipe (h : w.processExecOutputMode stream.fd = .pipe) :
    ((w.passedOn run).filter fun d => d.origin = stream) = [] := by
  rw [filter_eq_nil_iff]
  intro d hd horigin
  obtain ⟨c, hc, rfl⟩ := mem_map.1 hd
  have hmode := (mem_filter.1 hc).2
  simp only [decide_eq_true_eq] at hmode horigin
  rw [horigin, h] at hmode
  cases hmode

theorem arrived_nil {deliveries : List OutputDelivery}
    (h : (deliveries.filter fun d => d.origin = stream) = []) :
    w.Arrived run deliveries stream ↔ run.bytes stream = [] := by
  have hnil : w.Arrived run deliveries stream ↔ w.Arrived run [] stream :=
    arrived_congr (by simpa using h)
  rw [hnil]
  constructor
  · intro h
    exact h.1.symm
  · intro h
    exact ⟨h.symm, fun d hd => absurd hd not_mem_nil⟩

theorem deliveredBytes_passedOn (h : w.processExecOutputMode stream.fd = .inherit) :
    deliveredBytes (w.passedOn run) stream = run.bytes stream := by
  unfold deliveredBytes passedOn ChildRun.bytes
  induction run.writes with
  | nil => rfl
  | cons c writes ih =>
    by_cases hc : c.1 = stream
    · simp [hc, h, ih]
    · by_cases hmode : w.processExecOutputMode c.1.fd = .inherit <;> simp [hc, hmode, ih]

theorem exists_write_of_bytes_ne_nil (h : run.bytes stream ≠ []) :
    ∃ chunk, (stream, chunk) ∈ run.writes ∧ chunk ≠ [] := by
  by_contra hnone
  refine h (flatMap_eq_nil_iff.2 fun c hc => ?_)
  obtain ⟨hmem, horigin⟩ := mem_filter.1 hc
  obtain rfl : c.1 = stream := by simpa using horigin
  by_contra hne
  exact hnone ⟨c.2, hmem, hne⟩

theorem bytes_ne_nil_of_write {chunk : Bytes} (h : (stream, chunk) ∈ run.writes)
    (hne : chunk ≠ []) :
    run.bytes stream ≠ [] := by
  intro hnil
  exact hne (flatMap_eq_nil_iff.1 hnil (stream, chunk) (mem_filter.2 ⟨h, by simp⟩))

/-- Output that is passed on arrives if the descriptor stands for the stream. -/
theorem arrived_passedOn_iff (h : w.processExecOutputMode stream.fd = .inherit) :
    w.Arrived run (w.passedOn run) stream ↔ run.bytes stream = [] ∨ w.Routes run stream := by
  constructor
  · rintro ⟨-, hobjects⟩
    refine or_iff_not_imp_left.2 fun hbytes => ?_
    obtain ⟨chunk, hchunk, hne⟩ := exists_write_of_bytes_ne_nil hbytes
    have hobject := hobjects ⟨stream, .stdio stream, chunk⟩
      (mem_map.2 ⟨(stream, chunk), mem_filter.2 ⟨hchunk, by simp [h]⟩, rfl⟩) rfl hne
    rw [Routes, hobject]
  · intro hroutes
    refine ⟨deliveredBytes_passedOn h, fun d hd horigin hne => ?_⟩
    obtain ⟨c, hc, rfl⟩ := mem_map.1 hd
    obtain rfl : c.1 = stream := horigin
    have hbytes := bytes_ne_nil_of_write (mem_filter.1 hc).1 hne
    have hroutes := hroutes.resolve_left hbytes
    unfold Routes at hroutes
    cases hobject : w.outputObject c.1.fd with
    | none => simp [hobject] at hroutes
    | some =>
      obtain ⟨stream', rfl⟩ := outputObject_of_inherit h hobject
      simp only [hobject] at hroutes
      rw [hroutes]

/-! ### Captured output -/

/-- A captured stream routes if its object has room for it. -/
theorem routes_iff_of_pipe (h : w.processExecOutputMode stream.fd = .pipe) :
    w.Routes run stream ↔ run.returned.isSome ∧ ∃ object, w.outputObject stream.fd = some object ∧
      ∀ pipe, object = .pipe pipe →
        ((w.processExecInputBytes stdinFd).host.pipes.get pipe).bytes.length +
          w.writtenBefore run pipe stream + (run.bytes stream).length ≤ pipeBufferLimit := by
  unfold Routes
  cases hobject : w.outputObject stream.fd with
  | none => simp
  | some object =>
    cases object with
    | stdio stream' => exact absurd hobject (outputObject_of_pipe h stream')
    | pipe | file => simp

/-- What has become of a world since the child started: the objects are the same, and the pipes hold
what has been written before the stream is. -/
structure Awaits (w : World) (run : ChildRun) (stream : OutputStream) (w' : World) : Prop where
  objects : ∀ fd, w'.outputObject fd = w.outputObject fd
  lengths : ∀ pipe, (w'.host.pipes.get pipe).bytes.length =
    ((w.processExecInputBytes stdinFd).host.pipes.get pipe).bytes.length +
      w.writtenBefore run pipe stream

variable {e : ExecProgress}

theorem captured_arrived_iff (hthrew : e.threw = false)
    (hnone : (e.deliveries.filter fun d => d.origin = stream) = [])
    (hawaits : Awaits w run stream e.world) (hmode : w.processExecOutputMode stream.fd = .pipe)
    (hreturned : run.returned.isSome) :
    w.Arrived run
        (e.writeProcessExecCapturedOutput stream .pipe (run.bytes stream)).deliveries stream ↔
      run.bytes stream = [] ∨ w.Routes run stream := by
  unfold ExecProgress.writeProcessExecCapturedOutput
  by_cases hbytes : run.bytes stream = []
  · rw [if_pos (.inr (.inr hbytes)), arrived_nil hnone]
    simp [hbytes]
  rw [if_neg (by simp [hthrew, hbytes]), routes_iff_of_pipe hmode]
  simp only [hbytes, false_or, hreturned, true_and]
  cases hobject : e.world.bytesObject stream.fd (run.bytes stream).length with
  | none =>
    rw [arrived_nil hnone]
    refine iff_of_false hbytes ?_
    rintro ⟨object, hout, hroom⟩
    have hsome : e.world.bytesObject stream.fd (run.bytes stream).length = some object :=
      (bytesObject_eq_some_iff ((hawaits.objects _).trans hout)).2
        ⟨rfl, fun pipe hp => by rw [hawaits.lengths]; exact hroom pipe hp⟩
    rw [hobject] at hsome
    cases hsome
  | some object =>
    have hfilter : ((e.deliveries ++ [(⟨stream, object, run.bytes stream⟩ : OutputDelivery)]).filter
        fun d => d.origin = stream) = [⟨stream, object, run.bytes stream⟩] := by
      rw [filter_append, hnone]
      simp
    have harrived : w.Arrived run (e.deliveries ++ [⟨stream, object, run.bytes stream⟩]) stream ↔
        w.outputObject stream.fd = some object := by
      constructor
      · intro h
        exact h.2 _ (mem_append_right _ (mem_singleton.2 rfl)) rfl hbytes
      · intro h
        refine ⟨by rw [deliveredBytes, hfilter]; simp, fun d hd horigin _ => ?_⟩
        have hmem : d ∈ [(⟨stream, object, run.bytes stream⟩ : OutputDelivery)] :=
          hfilter ▸ mem_filter.2 ⟨hd, by simpa using horigin⟩
        rw [mem_singleton.1 hmem]
        exact h
    rw [harrived]
    constructor
    · intro hout
      obtain ⟨-, hroom⟩ := (bytesObject_eq_some_iff ((hawaits.objects _).trans hout)).1 hobject
      exact ⟨object, hout, fun pipe hp => by rw [← hawaits.lengths]; exact hroom pipe hp⟩
    · rintro ⟨object', hout, -⟩
      obtain ⟨rfl, -⟩ := (bytesObject_eq_some_iff ((hawaits.objects _).trans hout)).1 hobject
      exact hout

/-- The deliveries of one stream are not those of the other. -/
theorem filter_captured_of_ne {stream' : OutputStream} (hne : stream ≠ stream') (mode : OutputMode)
    (value : Bytes) :
    ((e.writeProcessExecCapturedOutput stream mode value).deliveries.filter
      fun d => d.origin = stream') = e.deliveries.filter fun d => d.origin = stream' := by
  unfold ExecProgress.writeProcessExecCapturedOutput
  split
  · rfl
  · split
    · rfl
    · simp [hne]

/-- A stream that is passed on is not captured. -/
theorem captured_inherit (e : ExecProgress) (stream : OutputStream) (value : Bytes) :
    e.writeProcessExecCapturedOutput stream .inherit value = e :=
  if_pos (.inr (.inl nofun))

theorem pipes_writeStdio (w : World) (stdioFd : Int) (chunks : List Bytes) :
    (w.writeStdio stdioFd chunks).host.pipes = w.host.pipes := by
  unfold writeStdio setHost
  split <;> rfl

theorem pipes_writeOpenFile (w : World) (file : OpenFile) (record offset : ℕ)
    (chunks : List Bytes) :
    (w.writeOpenFile file record offset chunks).host.pipes = w.host.pipes := by
  have hdirty : ∀ w' : World, (w'.markOpenFileDirty file record).host.pipes = w'.host.pipes := by
    intro w'
    unfold markOpenFileDirty
    split <;> rfl
  have hat : ∀ start, (w.writeOpenFileAt file record chunks start).1.host.pipes = w.host.pipes := by
    intro start
    unfold writeOpenFileAt
    dsimp only
    split
    · exact hdirty _
    · rfl
  exact hat _

/-- What a write of bytes does to the pipes. -/
theorem pipes_writeBytesToFd {w : World} {fd : Int} {bytes : Bytes} {object : OutputObject}
    (h : w.bytesObject fd bytes.length = some object) (pipe : ℕ) :
    ((w.writeBytesToFd fd bytes).host.pipes.get pipe).readers = (w.host.pipes.get pipe).readers ∧
    ((w.writeBytesToFd fd bytes).host.pipes.get pipe).bytes.length =
      (w.host.pipes.get pipe).bytes.length + if object = .pipe pipe then bytes.length else 0 := by
  unfold bytesObject at h
  unfold writeBytesToFd
  cases hopen : w.openFile fd with
  | none =>
    simp only [hopen] at h ⊢
    split_ifs at h with hfd
    obtain rfl := Option.some.inj h
    rw [if_pos hfd, pipes_writeStdio]
    simp
  | some file =>
    simp only [hopen] at h ⊢
    cases hkind : file.kind with
    | stdio =>
      simp only [hkind] at h ⊢
      obtain rfl := Option.some.inj h
      rw [pipes_writeStdio]
      simp
    | pipe direction p =>
      simp only [hkind] at h ⊢
      split_ifs at h with hpipe
      obtain rfl := Option.some.inj h
      rw [writeBytesToPipe, if_pos hpipe]
      simp only [setHost, Host.modifyPipe, Heap.get_modify]
      by_cases hp : pipe = p
      · subst hp
        simp
      · have hne : p ≠ pipe := fun h => hp h.symm
        simp [hp, hne]
    | directory => simp [hkind] at h
    | file =>
      simp only [hkind] at h ⊢
      split_ifs at h with hcan
      obtain rfl := Option.some.inj h
      rw [if_pos hcan, pipes_writeOpenFile]
      simp

/-- What standard error finds if nothing has been captured of standard output, or nothing of it was
for a pipe. -/
theorem Awaits.stderr {w' : World} (h : Awaits w run .stdout w')
    (hnone : run.bytes .stdout = [] ∨ ∀ pipe, w.outputObject stdoutFd ≠ some (.pipe pipe)) :
    Awaits w run .stderr w' := by
  refine ⟨h.objects, fun pipe => ?_⟩
  have hbefore : w.writtenBefore run pipe .stderr = 0 := by
    unfold writtenBefore
    obtain hbytes | hobject := hnone
    · simp [hbytes]
    · exact if_neg (hobject pipe)
  rw [h.lengths, hbefore]
  rfl

/-- Once standard output has arrived, standard error is waited for. -/
theorem awaits_captured (hthrew : e.threw = false) (hawaits : Awaits w run .stdout e.world)
    (hroutes : run.bytes .stdout = [] ∨ w.Routes run .stdout) :
    (e.writeProcessExecCapturedOutput .stdout (w.processExecOutputMode stdoutFd)
      (run.bytes .stdout)).threw = false ∧
    Awaits w run .stderr
    (e.writeProcessExecCapturedOutput .stdout (w.processExecOutputMode stdoutFd)
      (run.bytes .stdout)).world := by
  cases hmode : w.processExecOutputMode stdoutFd with
  | inherit =>
    rw [captured_inherit]
    refine ⟨hthrew, hawaits.stderr (.inr fun pipe hobject => ?_)⟩
    obtain ⟨stream, hstream⟩ := outputObject_of_inherit hmode hobject
    cases hstream
  | pipe =>
    by_cases hbytes : run.bytes .stdout = []
    · have hskip : e.writeProcessExecCapturedOutput .stdout .pipe (run.bytes .stdout) = e :=
        if_pos (.inr (.inr hbytes))
      rw [hskip]
      exact ⟨hthrew, hawaits.stderr (.inl hbytes)⟩
    have hmode' : w.processExecOutputMode OutputStream.stdout.fd = .pipe := hmode
    obtain ⟨-, object, hobject, hroom⟩ :=
      (routes_iff_of_pipe hmode').1 (hroutes.resolve_left hbytes)
    have hwritten : e.world.bytesObject stdoutFd (run.bytes .stdout).length = some object :=
      (bytesObject_eq_some_iff ((hawaits.objects _).trans hobject)).2
        ⟨rfl, fun pipe hp => by rw [hawaits.lengths]; exact hroom pipe hp⟩
    have hstep : e.writeProcessExecCapturedOutput .stdout .pipe (run.bytes .stdout) =
        { e with
          world := e.world.writeBytesToFd stdoutFd (run.bytes .stdout)
          deliveries := e.deliveries ++ [⟨.stdout, object, run.bytes .stdout⟩] } := by
      unfold ExecProgress.writeProcessExecCapturedOutput
      rw [if_neg (by simp [hthrew, hbytes])]
      simp only [OutputStream.fd, hwritten]
    rw [hstep]
    refine ⟨hthrew, fun fd => ?_, fun pipe => ?_⟩
    · rw [← hawaits.objects fd]
      refine outputObject_congr (fun fd' => ?_)
        (fun pipe => (pipes_writeBytesToFd hwritten pipe).1) fd
      exact congrArg (fun r => r.openFiles.get fd') (runtime_writeBytesToFd ..)
    · rw [(pipes_writeBytesToFd hwritten pipe).2, hawaits.lengths]
      have hout : w.outputObject stdoutFd = some object := hobject
      simp [writtenBefore, hout]

/-! ### The law -/

/-- The world that the workspace has been exchanged in, with the output of the child passed on. -/
theorem awaits_exchanged (h : ChildCommandOutputWriter.Wrote w.execWriter run.writes writer)
    (snapshot : Option SnapshotTree) :
    Awaits w run .stdout (writer.parentOutput.exchangeWorkspace snapshot) := by
  obtain ⟨hobjects, -, hpipes⟩ := writer.parentOutput.exchangeWorkspace_objects snapshot
  refine ⟨fun fd => ?_, fun pipe => ?_⟩
  · rw [hobjects, outputObject_congr h.openFile (fun pipe => by rw [h.pipes])]
    exact outputObject_processExecInputBytes ..
  · rw [hpipes, h.pipes]
    rfl

/-- Capturing takes the mode of the descriptor and the bytes of the child. -/
theorem captured_eq (h : ChildCommandOutputWriter.Wrote w.execWriter run.writes writer)
    (e : ExecProgress) (stream : OutputStream) :
    e.writeProcessExecCapturedOutput stream (writer.mode stream) (writer.bytes stream) =
      e.writeProcessExecCapturedOutput stream (w.processExecOutputMode stream.fd)
        (run.bytes stream) := by
  rw [h.mode, mode_execWriter]
  cases hmode : w.processExecOutputMode stream.fd with
  | inherit => rw [captured_inherit, captured_inherit]
  | pipe =>
    have hbytes := h.captured stream ((mode_execWriter stream).trans hmode)
    have hstart : w.execWriter.bytes stream = [] := by cases stream <;> rfl
    rw [hbytes, hstart, nil_append]
    rfl

/-- One stream, captured or passed on. -/
theorem arrived_iff (hthrew : e.threw = false)
    (hdeliveries : (e.deliveries.filter fun d => d.origin = stream) =
      (w.passedOn run).filter fun d => d.origin = stream)
    (hawaits : Awaits w run stream e.world) (hreturned : run.returned.isSome) :
    w.Arrived run (e.writeProcessExecCapturedOutput stream (w.processExecOutputMode stream.fd)
        (run.bytes stream)).deliveries stream ↔
      run.bytes stream = [] ∨ w.Routes run stream := by
  cases hmode : w.processExecOutputMode stream.fd with
  | inherit =>
    rw [captured_inherit, arrived_congr hdeliveries]
    exact arrived_passedOn_iff hmode
  | pipe =>
    exact captured_arrived_iff hthrew (hdeliveries.trans (passedOn_of_pipe hmode)) hawaits hmode
      hreturned

/-- The output of a child arrives exactly if each stream is silent or routed. -/
theorem delivered_iff_routed (w : World) (run : ChildRun) : w.Delivered run ↔ w.Routed run := by
  rw [delivered_iff_arrived]
  have hwrote := ChildCommandOutputWriter.wrote_foldl w.execWriter run.writes
  unfold runProcessExec
  set writer := run.writes.foldl (fun writer c => writer.write c.1 c.2) w.execWriter
  have hdeliveries : writer.deliveries = w.passedOn run := by
    rw [hwrote.deliveries]
    simp only [mode_execWriter]
    rfl
  cases hreturned : run.returned with
  | none =>
    -- The child has failed, and what has been captured of it is lost.
    refine forall_congr' fun stream => ?_
    dsimp only
    rw [hdeliveries]
    cases hmode : w.processExecOutputMode stream.fd with
    | inherit => exact arrived_passedOn_iff hmode
    | pipe =>
      rw [arrived_nil (passedOn_of_pipe hmode), routes_iff_of_pipe hmode]
      simp [hreturned]
  | some snapshot =>
    have hsome : run.returned.isSome := by rw [hreturned]; rfl
    set e : ExecProgress :=
      ⟨writer.parentOutput.exchangeWorkspace snapshot, writer.deliveries, false⟩ with he
    change (∀ stream, w.Arrived run
      ((e.writeProcessExecCapturedOutput .stdout (writer.mode .stdout) (writer.bytes .stdout))
        |>.writeProcessExecCapturedOutput .stderr (writer.mode .stderr)
          (writer.bytes .stderr)).deliveries stream) ↔ w.Routed run
    rw [captured_eq hwrote, captured_eq hwrote]
    set e' := e.writeProcessExecCapturedOutput .stdout
      (w.processExecOutputMode OutputStream.stdout.fd) (run.bytes .stdout) with he'
    have hout : w.Arrived run e'.deliveries .stdout ↔
        run.bytes .stdout = [] ∨ w.Routes run .stdout :=
      arrived_iff rfl (by rw [he, hdeliveries]) (awaits_exchanged hwrote snapshot) hsome
    -- Standard error is written only if standard output could be.
    have herr (hroutes : run.bytes .stdout = [] ∨ w.Routes run .stdout) :
        w.Arrived run (e'.writeProcessExecCapturedOutput .stderr
          (w.processExecOutputMode OutputStream.stderr.fd) (run.bytes .stderr)).deliveries .stderr ↔
        run.bytes .stderr = [] ∨ w.Routes run .stderr := by
      obtain ⟨hthrew, hawaits⟩ :=
        awaits_captured (e := e) rfl (awaits_exchanged hwrote snapshot) hroutes
      refine arrived_iff hthrew ?_ hawaits hsome
      rw [he', filter_captured_of_ne (by decide), he, hdeliveries]
    have hkeep : w.Arrived run (e'.writeProcessExecCapturedOutput .stderr
        (w.processExecOutputMode OutputStream.stderr.fd) (run.bytes .stderr)).deliveries .stdout ↔
        w.Arrived run e'.deliveries .stdout :=
      arrived_congr (filter_captured_of_ne (by decide) ..)
    constructor
    · intro h
      have hroutes := hout.1 (hkeep.1 (h .stdout))
      intro stream
      cases stream with
      | stdout => exact hroutes
      | stderr => exact (herr hroutes).1 (h .stderr)
    · intro h stream
      cases stream with
      | stdout => exact hkeep.2 (hout.2 (h .stdout))
      | stderr => exact (herr (h .stdout)).2 (h .stderr)

end World

/-! ### Standard output on standard error -/

namespace System

/-- A guest that has put a duplicate of standard error on the number of standard output. -/
def stderrOnStdout : System :=
  (boot none [] [] none []).step (.call (.fdDup2 smallMemory 2 1 0 8))

theorem reach_stderrOnStdout : Reach step (boot none [] [] none []) stderrOnStdout :=
  .next _ .start trivial

/-- What the guest writes to standard output goes to standard error. What its child writes there
does not. -/
theorem not_delivered_stderrOnStdout :
    ¬ ∀ s, Reach step (boot none [] [] none []) s → ∀ run, s.world.Delivered run := by
  intro h
  have hdelivered := h stderrOnStdout reach_stderrOnStdout ⟨[(.stdout, [0x78])], some none⟩
  have hobject := hdelivered.objects ⟨.stdout, .stdio .stdout, [0x78]⟩ mem_cons_self nofun
  have hguest : stderrOnStdout.world.outputObject stdoutFd = some (.stdio .stderr) := rfl
  have hsame := hguest.symm.trans hobject
  cases hsame

end System

end WasmHost

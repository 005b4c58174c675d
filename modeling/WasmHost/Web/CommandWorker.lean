import WasmHost.Lib.Heap
import WasmHost.Web.CommandMessages

/-!
# The command worker

`BrowserCommandWorkerRuntime` of `command-worker.js` with the code that it runs. A run waits in turn
for its package, for a snapshot of the workspace, for its executor and for the import of the
snapshot that comes back (`CommandPhase`); a child command started by an executor does the same.
Between two of these points messages arrive, timers expire and executors write, in any order. What
is outside the worker answers through events: packages that are found or not, executors that write,
start children and settle as they like, a store that fails or not.

An executor keeps its writer when its run is over, and a child command its place below the commands
that have started it.
-/

namespace WasmHost

/-- The files of a workspace. -/
abbrev Files := Text → Option Bytes

/-- The two output streams. -/
inductive OutputStream
  | stdout | stderr
  deriving DecidableEq

/-- How the packages of a type use the workspace store. -/
inductive StoreUse
  | snapshot | direct | none
  deriving DecidableEq

/-- What the search for a package and its executor gives. -/
structure Resolution where
  packageId : Text
  command : Text
  store : StoreUse

/-- The result of an executor. `Number` can throw at the exit code. -/
structure ExecutorResult where
  exitCode : Except CommandThrown ℤ
  workspaceSnapshot : Option Files

/-- What a command waits for, with the answer as soon as it is there. -/
inductive CommandPhase
  | resolving (outcome : Option (Except CommandThrown Resolution))
  | exporting (resolution : Resolution) (outcome : Option (Except CommandThrown Files))
  | executing (resolution : Resolution) (snapshot : Option Files)
    (outcome : Option (Except CommandThrown ExecutorResult))
  | importing (snapshot : Option Files) (result : ExecutorResult)
    (outcome : Option (Except CommandThrown Unit))
  | ended

/-- The command has ended. -/
def CommandPhase.IsOver : CommandPhase → Prop
  | .ended => True
  | _ => False

/-- The phase decides it. -/
instance : DecidablePred CommandPhase.IsOver
  | .resolving _ => inferInstanceAs (Decidable False)
  | .exporting _ _ => inferInstanceAs (Decidable False)
  | .executing _ _ _ => inferInstanceAs (Decidable False)
  | .importing _ _ _ => inferInstanceAs (Decidable False)
  | .ended => inferInstanceAs (Decidable True)

/-- A run, with the reason of its signal when that is aborted. -/
structure ActiveRun where
  request : RunRequest
  abortError : Option CommandError
  aborted : Option CommandError
  stdin : ByteStream CommandError
  terminal : TerminalSize
  stdoutBytes : ℕ
  stderrBytes : ℕ
  stdoutClosed : Bool
  stderrClosed : Bool
  timer : Bool
  phase : CommandPhase

/-- What a heap holds where no run is. -/
instance : Inhabited ActiveRun where
  default :=
    { request := ⟨[], [], [], false, [], none, [], [], none, false, ⟨none, none⟩, none⟩
      abortError := none, aborted := none, stdin := .new, terminal := ⟨none, none⟩
      stdoutBytes := 0, stderrBytes := 0, stdoutClosed := false, stderrClosed := false
      timer := false, phase := .ended }

/-- A child command: its run, the child commands it stands below, nearest first, and its own
signal, with whether that still listens to the signal of the run. -/
structure ChildCommand where
  run : ℕ
  above : List ℕ
  aborted : Option CommandError
  linked : Bool
  timer : Bool
  stdout : OutputMode
  stderr : OutputMode
  stdoutChunks : List Bytes
  stderrChunks : List Bytes
  stdoutBytes : ℕ
  stderrBytes : ℕ
  workspaceSnapshot : Option Files
  phase : CommandPhase

/-- What a heap holds where no child is. -/
instance : Inhabited ChildCommand where
  default :=
    { run := 0, above := [], aborted := none, linked := false, timer := false, stdout := .pipe
      stderr := .pipe, stdoutChunks := [], stderrChunks := [], stdoutBytes := 0, stderrBytes := 0
      workspaceSnapshot := none, phase := .ended }

/-- Where an output of the child goes. -/
def ChildCommand.mode (child : ChildCommand) : OutputStream → OutputMode
  | .stdout => child.stdout
  | .stderr => child.stderr

/-- A message of the worker. A refused message may have had no id. -/
inductive CommandPost
  | started (id packageId command : Text) (args : List Text) (cwd : Text)
  | output (id : Text) (stream : OutputStream) (chunk : Bytes)
  | close (id : Text) (stream : OutputStream)
  | complete (id : Text) (exitCode : ℤ) (stdoutBytes stderrBytes : ℕ)
  | error (id : Option Text) (error : CommandError) (stdoutBytes stderrBytes : ℕ)
  deriving DecidableEq

/-- The id that a message carries. -/
def CommandPost.id : CommandPost → Option Text
  | .started id _ _ _ _ => some id
  | .output id _ _ => some id
  | .close id _ => some id
  | .complete id _ _ _ => some id
  | .error id _ _ _ => id

/-- The state of the worker and what it has posted. -/
structure CommandWorker where
  runs : Heap ActiveRun
  children : Heap ChildCommand
  activeRun : Option ℕ
  store : Files
  posts : List CommandPost

namespace ActiveRun

def id (run : ActiveRun) : Text := run.request.id

/-- `createActiveRun`, and the standard input that the run message brings. -/
def create (request : RunRequest) : ActiveRun where
  request := request
  abortError := none
  aborted := none
  stdin := { ByteStream.new with
    chunks := request.initialStdin.filter (· ≠ [])
    closed := !request.stdinOpen }
  terminal := request.terminal
  stdoutBytes := 0
  stderrBytes := 0
  stdoutClosed := false
  stderrClosed := false
  timer := request.timeoutMs.isSome
  phase := .resolving none

/-- `abortRun` at the run itself: the error is overwritten, the reason of the signal and the error
of the standard input are not. -/
def abort (error : CommandError) (run : ActiveRun) : ActiveRun :=
  { run with
    abortError := some error
    aborted := some (run.aborted.getD error)
    stdin := run.stdin.fail error }

/-- `normalizeRunError`. -/
def normalizeRunError (thrown : CommandThrown) (run : ActiveRun) : Option CommandError :=
  match run.aborted, run.abortError with
  | some _, some error => some error
  | _, _ => normalizeCommandError "runtime" thrown

/-- Counts the bytes of an output. -/
def count (stream : OutputStream) (n : ℕ) (run : ActiveRun) : ActiveRun :=
  match stream with
  | .stdout => { run with stdoutBytes := run.stdoutBytes + n }
  | .stderr => { run with stderrBytes := run.stderrBytes + n }

/-- The messages of `postOutputStreamClose`. -/
def closePosts (run : ActiveRun) : List CommandPost :=
  (if run.stdoutClosed then [] else [.close run.id .stdout]) ++
    (if run.stderrClosed then [] else [.close run.id .stderr])

def closed (run : ActiveRun) : ActiveRun := { run with stdoutClosed := true, stderrClosed := true }

/-- A run behind its `finally`. -/
def finish (run : ActiveRun) : ActiveRun :=
  { run with timer := false, phase := .ended }

end ActiveRun

namespace CommandWorker

/-- The worker before its first message. -/
def start (store : Files) : CommandWorker where
  runs := .empty
  children := .empty
  activeRun := none
  store := store
  posts := []

/-- Posts messages. -/
def post (ms : List CommandPost) (w : CommandWorker) : CommandWorker :=
  { w with posts := w.posts ++ ms }

/-- `postCommandError`. -/
def postCommandError (id : Option Text) (error : CommandError) (w : CommandWorker) :
    CommandWorker := w.post [.error id error 0 0]

/-- Changes a run. -/
def modifyRun (r : ℕ) (f : ActiveRun → ActiveRun) (w : CommandWorker) : CommandWorker :=
  { w with runs := w.runs.modify r f }

/-- Changes a child. -/
def modifyChild (c : ℕ) (f : ChildCommand → ChildCommand) (w : CommandWorker) : CommandWorker :=
  { w with children := w.children.modify c f }

/-! ### Aborts -/

/-- What the signal of a run does to a child command that listens to it. -/
def abortLinked (r : ℕ) (reason : CommandError) (child : ChildCommand) : ChildCommand :=
  if child.run = r ∧ child.linked ∧ child.aborted = none then
    { child with aborted := some reason }
  else child

/-- Aborts a run and all its children. -/
def abortRun (r : ℕ) (error : CommandError) (w : CommandWorker) : CommandWorker :=
  { w with
    runs := w.runs.modify r (ActiveRun.abort error)
    children :=
      -- a signal fires once
      if (w.runs.get r).aborted = none then w.children.map (abortLinked r error) else w.children }

def failStdin (r : ℕ) (error : CommandError) (w : CommandWorker) : CommandWorker :=
  abortRun r error (w.modifyRun r fun run => { run with stdin := run.stdin.fail error })

/-- The active run, if it has the id. -/
def activeRunWith? (id : Option Text) (w : CommandWorker) : Option ℕ :=
  w.activeRun.filter fun r => some (w.runs.get r).id = id

/-- Takes `command.cancel`. -/
def cancel (id : Option Text) (w : CommandWorker) : CommandWorker :=
  match w.activeRunWith? id with
  | none => w
  | some r => w.abortRun r .cancelledError

/-! ### Messages about a run -/

def unknownStdin : CommandError := .invalidRequest "unknown browser command stdin stream" "stdio"

def unknownTerminal : CommandError :=
  .invalidRequest "unknown browser command terminal stream" "stdio"

/-- The active run of a message, or the error that is posted in its place. A message without an id
in a worker without a run is taken to fit, and does nothing. -/
def answerUnknown (id : Option Text) (error : CommandError) (w : CommandWorker) : CommandWorker :=
  if id = none ∧ w.activeRun = none then w else w.postCommandError id error

/-- A message about standard input. `f` is what it does to the stream. -/
def onStdin (id : Option Text)
    (f : ByteStream CommandError → Except CommandError (ByteStream CommandError))
    (w : CommandWorker) : CommandWorker :=
  match w.activeRunWith? id with
  | none => w.answerUnknown id unknownStdin
  | some r =>
    match f (w.runs.get r).stdin with
    | .ok stdin => w.modifyRun r fun run => { run with stdin := stdin }
    | .error error => w.failStdin r error

/-- Takes `command.stdin.chunk`. -/
def handleStdinChunk (id : Option Text) (message : ChunkMessage) : CommandWorker → CommandWorker :=
  onStdin id fun stdin => do
    let bytes ← stdinChunkFromMessage message
    stdin.push .stdinAlreadyClosed bytes

/-- Takes `command.stdin.end`. -/
def handleStdinEnd (id : Option Text) : CommandWorker → CommandWorker :=
  onStdin id (ByteStream.finish .stdinAlreadyClosed)

def handleStdinError (id : Option Text) (error : StdinErrorFields) :
    CommandWorker → CommandWorker :=
  onStdin id fun _ => .error (errorFromStdinMessage error)

/-- Takes `command.terminal.resize`. -/
def handleTerminalResize (id : Option Text) (message : TerminalFields) (w : CommandWorker) :
    CommandWorker :=
  match w.activeRunWith? id with
  | none => w.answerUnknown id unknownTerminal
  | some r =>
    match terminalResizeFromMessage message with
    | .ok size => w.modifyRun r fun run => { run with terminal := size }
    | .error error => w.postCommandError id error

/-! ### A run -/

/-- The error of a second run. -/
def alreadyRunning : CommandError :=
  .invalidRequest "another browser command is already running" "startup"

/-- `runCommand` up to where it waits for the package. -/
def runCommand (message : RunMessage) (w : CommandWorker) : CommandWorker :=
  match normalizeRunMessage message with
  | .error error => w.postCommandError message.answerId error
  | .ok request =>
    match w.activeRun with
    | some _ => w.postCommandError (some request.id) alreadyRunning
    | none =>
      { w with runs := w.runs.alloc (.create request), activeRun := some w.runs.next }

/-- The timer of a run. -/
def expire (r : ℕ) (w : CommandWorker) : CommandWorker :=
  if (w.runs.get r).timer then
    abortRun r .timeoutError (w.modifyRun r fun run => { run with timer := false })
  else w

/-- The `finally` of a run: its timer is cleared and it is active no more. -/
def endRun (r : ℕ) (w : CommandWorker) : CommandWorker :=
  { w with
    runs := w.runs.modify r ActiveRun.finish
    activeRun := if w.activeRun = some r then none else w.activeRun }

def postOutputStreamClose (r : ℕ) (w : CommandWorker) : CommandWorker :=
  (w.post (w.runs.get r).closePosts).modifyRun r ActiveRun.closed

/-- The `catch` of a run and what follows it. What is thrown there leaves the run without an answer,
and ends it by the `finally` of the second `catch`. The first one, for the search of the package,
has none: behind it the run would stay active, with its timer. `CommandWorker.Orderly` bars both. -/
def failRun (r : ℕ) (thrown : CommandThrown) (w : CommandWorker) : CommandWorker :=
  let run := w.runs.get r
  match run.normalizeRunError thrown with
  | none => w.endRun r
  | some error =>
    if run.abortError = none ∧ ¬ thrown.Reportable then (w.postOutputStreamClose r).endRun r
    else
      ((w.postOutputStreamClose r).post
        [.error (some run.id) error run.stdoutBytes run.stderrBytes]).endRun r

/-- A run that has come to its result. -/
def completeRun (r : ℕ) (result : ExecutorResult) (w : CommandWorker) : CommandWorker :=
  let run := w.runs.get r
  match result.exitCode with
  | .ok exitCode =>
    ((w.postOutputStreamClose r).post
      [.complete run.id exitCode run.stdoutBytes run.stderrBytes]).endRun r
  | .error thrown => (w.postOutputStreamClose r).failRun r thrown

/-- The next part of a run, if what it waits for is there or its signal is aborted. The waits for
the package and for the executor are races with the signal, those for the store are not. -/
def resumeRun (r : ℕ) (w : CommandWorker) : CommandWorker :=
  let run := w.runs.get r
  match run.phase with
  | .ended => w
  | .resolving outcome =>
    if run.aborted.isSome then w.failRun r .abort
    else match outcome with
    | none => w
    | some (.error thrown) => w.failRun r thrown
    | some (.ok resolution) =>
      let next : CommandPhase :=
        if resolution.store = .snapshot then .exporting resolution none
        else .executing resolution none none
      (w.post [.started run.id resolution.packageId resolution.command run.request.args
        run.request.cwd]).modifyRun r fun run => { run with phase := next }
  | .exporting resolution outcome =>
    match outcome with
    | none => w
    | some (.error thrown) => w.failRun r thrown
    | some (.ok files) =>
      w.modifyRun r fun run => { run with phase := .executing resolution (some files) none }
  | .executing resolution snapshot outcome =>
    if run.aborted.isSome then w.failRun r .abort
    else match outcome with
    | none => w
    | some (.error thrown) => w.failRun r thrown
    | some (.ok result) =>
      if resolution.store = .snapshot ∧ result.workspaceSnapshot.isSome then
        w.modifyRun r fun run => { run with phase := .importing snapshot result none }
      else w.completeRun r result
  | .importing _ result outcome =>
    match outcome with
    | none => w
    | some (.error thrown) => w.failRun r thrown
    | some (.ok ()) => w.completeRun r result

/-! ### Child commands -/

/-- Where a child command is started: by the executor of a run, or by the one of a child. -/
inductive Starter
  | run (r : ℕ)
  | child (c : ℕ)
  deriving DecidableEq

/-- The run of a command, and the child commands down to it, itself first. -/
def lineage (w : CommandWorker) : Starter → ℕ × List ℕ
  | .run r => (r, [])
  | .child c => ((w.children.get c).run, c :: (w.children.get c).above)

/-- `createChildCommandAbortSignal`, and the output of the child: its signal follows the one of the
run, whichever command has started it. -/
def newChild (w : CommandWorker) (starter : Starter) (request : ChildRequest) : ChildCommand :=
  let reason := (w.runs.get (w.lineage starter).1).aborted
  { run := (w.lineage starter).1
    above := (w.lineage starter).2
    aborted := reason
    linked := reason.isNone
    timer := request.timeoutMs.isSome
    stdout := request.stdout
    stderr := request.stderr
    stdoutChunks := []
    stderrChunks := []
    stdoutBytes := 0
    stderrBytes := 0
    workspaceSnapshot := request.workspaceSnapshot
    phase := .resolving none }

/-- `runChildCommand` up to where it waits for the package. A request that cannot be used is thrown
back at the executor. -/
def startChild (starter : Starter) (fields : ChildFields) (w : CommandWorker) : CommandWorker :=
  match normalizeChildCommandRequest fields with
  | .error _ => w
  | .ok request => { w with children := w.children.alloc (w.newChild starter request) }

/-- The timer of a child command. -/
def expireChild (c : ℕ) (w : CommandWorker) : CommandWorker :=
  if (w.children.get c).timer then
    w.modifyChild c fun child =>
      { child with timer := false, aborted := some (child.aborted.getD .timeoutError) }
  else w

/-- A child command behind its `finally`. -/
def endChild (c : ℕ) (w : CommandWorker) : CommandWorker :=
  w.modifyChild c fun child => { child with linked := false, timer := false, phase := .ended }

/-- The next part of a child command. An error, an abort or a result goes to the executor that
waits for the child, which may do with it what it likes. -/
def resumeChild (c : ℕ) (w : CommandWorker) : CommandWorker :=
  let child := w.children.get c
  match child.phase with
  | .ended => w
  | .resolving outcome =>
    if child.aborted.isSome then w.endChild c
    else match outcome with
    | none => w
    | some (.error _) => w.endChild c
    | some (.ok resolution) =>
      let next : CommandPhase :=
        if resolution.store = .snapshot ∧ child.workspaceSnapshot = none then
          .exporting resolution none
        else .executing resolution child.workspaceSnapshot none
      w.modifyChild c fun child => { child with phase := next }
  | .exporting resolution outcome =>
    match outcome with
    | none => w
    | some (.error _) => w.endChild c
    | some (.ok files) =>
      w.modifyChild c fun child => { child with phase := .executing resolution (some files) none }
  | .executing resolution snapshot outcome =>
    if child.aborted.isSome then w.endChild c
    else match outcome with
    | none => w
    | some (.error _) => w.endChild c
    | some (.ok result) =>
      if resolution.store = .snapshot ∧ child.workspaceSnapshot = none ∧
          result.workspaceSnapshot.isSome then
        w.modifyChild c fun child => { child with phase := .importing snapshot result none }
      else w.endChild c
  | .importing _ _ outcome =>
    match outcome with
    | none => w
    | some _ => w.endChild c

/-! ### Output -/

/-- `CommandOutputWriter.write` of a run: an aborted run takes no more output. -/
def writeRun (r : ℕ) (stream : OutputStream) (bytes : Bytes) (w : CommandWorker) : CommandWorker :=
  if (w.runs.get r).aborted.isSome then w
  else (w.modifyRun r (ActiveRun.count stream bytes.length)).post
    [.output (w.runs.get r).id stream bytes]

/-- `ChildCommandOutputWriter.write` at the child command itself: it counts the bytes, and keeps
them where its output is a pipe. -/
def takeOutput (stream : OutputStream) (bytes : Bytes) (child : ChildCommand) : ChildCommand :=
  match stream with
  | .stdout =>
    { child with
      stdoutBytes := child.stdoutBytes + bytes.length
      stdoutChunks := if child.stdout = .pipe then child.stdoutChunks ++ [bytes]
        else child.stdoutChunks }
  | .stderr =>
    { child with
      stderrBytes := child.stderrBytes + bytes.length
      stderrChunks := if child.stderr = .pipe then child.stderrChunks ++ [bytes]
        else child.stderrChunks }

/-- `ChildCommandOutputWriter.write` of a chain of child commands, nearest first. -/
def writeChain (r : ℕ) (stream : OutputStream) (bytes : Bytes) :
    List ℕ → CommandWorker → CommandWorker
  | [], w => w.writeRun r stream bytes
  | c :: above, w =>
    if (w.children.get c).aborted.isSome then w
    else
      let w' := w.modifyChild c (takeOutput stream bytes)
      if (w.children.get c).mode stream = .inherit then writeChain r stream bytes above w' else w'

/-- A write of the executor of a run or a child command. A chunk that is none is thrown back at
it. -/
def write (writer : Starter) (stream : OutputStream) (chunk : ChunkValue) (w : CommandWorker) :
    CommandWorker :=
  match toUint8Array chunk with
  | .error _ => w
  | .ok bytes =>
    match writer with
    | .run r => w.writeRun r stream bytes
    | .child c => w.writeChain (w.children.get c).run stream bytes (c :: (w.children.get c).above)

end CommandWorker

/-! ### What the worker waits for -/

namespace CommandPhase

/-- An answer that was waited for and is there. -/
inductive Answer
  | resolved (outcome : Except CommandThrown Resolution)
  | exported (failure : Option CommandThrown)
  | executed (outcome : Except CommandThrown ExecutorResult)
  | imported (failure : Option CommandThrown)
  /-- The store has taken the snapshot and then failed to save it. -/
  | unsaved (thrown : CommandThrown)

/-- The phase and the store with an answer in it. The first answer counts. -/
def answer (store : Files) : CommandPhase → Answer → CommandPhase × Files
  | .resolving none, .resolved outcome => (.resolving (some outcome), store)
  | .exporting resolution none, .exported none =>
    (.exporting resolution (some (.ok store)), store)
  | .exporting resolution none, .exported (some thrown) =>
    (.exporting resolution (some (.error thrown)), store)
  | .executing resolution snapshot none, .executed outcome =>
    (.executing resolution snapshot (some outcome), store)
  | .importing snapshot result none, .imported none =>
    (.importing snapshot result (some (.ok ())), result.workspaceSnapshot.getD store)
  | .importing snapshot result none, .imported (some thrown) =>
    (.importing snapshot result (some (.error thrown)), store)
  | .importing snapshot result none, .unsaved thrown =>
    (.importing snapshot result (some (.error thrown)), result.workspaceSnapshot.getD store)
  | phase, _ => (phase, store)

end CommandPhase

namespace CommandWorker

/-- Hands an answer to who waits for it. -/
def answer (waiter : Starter) (a : CommandPhase.Answer) (w : CommandWorker) : CommandWorker :=
  match waiter with
  | .run r =>
    let answered := (w.runs.get r).phase.answer w.store a
    { w with
      runs := w.runs.modify r fun run => { run with phase := answered.1 }
      store := answered.2 }
  | .child c =>
    let answered := (w.children.get c).phase.answer w.store a
    { w with
      children := w.children.modify c fun child => { child with phase := answered.1 }
      store := answered.2 }

/-- An executor whose package uses the store itself changes a file. -/
def edit (path : Text) (content : Option Bytes) (w : CommandWorker) : CommandWorker :=
  { w with store := Function.update w.store path content }

end CommandWorker

/-- What happens to a worker: messages, timers, answers, and what its executors do. -/
inductive CommandEvent
  | run (message : RunMessage)
  | stdin (id : Option Text) (message : ChunkMessage)
  | stdinEnd (id : Option Text)
  | stdinError (id : Option Text) (error : StdinErrorFields)
  | resize (id : Option Text) (message : TerminalFields)
  | cancel (id : Option Text)
  | expire (timer : CommandWorker.Starter)
  | answer (waiter : CommandWorker.Starter) (answer : CommandPhase.Answer)
  | resume (command : CommandWorker.Starter)
  | write (writer : CommandWorker.Starter) (stream : OutputStream) (chunk : ChunkValue)
  | startChild (starter : CommandWorker.Starter) (fields : ChildFields)
  | edit (editor : CommandWorker.Starter) (path : Text) (content : Option Bytes)

namespace CommandWorker

/-- A run, or a child command of a run, that is there. -/
def Known (w : CommandWorker) : Starter → Prop
  | .run r => r < w.runs.next
  | .child c => c < w.children.next ∧ (w.children.get c).run < w.runs.next

/-- The numbers in use are known. -/
instance (w : CommandWorker) : DecidablePred w.Known
  | .run r => inferInstanceAs (Decidable (r < _))
  | .child c => inferInstanceAs (Decidable (c < _ ∧ _))

/-- One event. -/
def step (w : CommandWorker) : CommandEvent → CommandWorker
  | .run message => w.runCommand message
  | .stdin id message => w.handleStdinChunk id message
  | .stdinEnd id => w.handleStdinEnd id
  | .stdinError id error => w.handleStdinError id error
  | .resize id message => w.handleTerminalResize id message
  | .cancel id => w.cancel id
  | .expire (.run r) => if w.Known (.run r) then w.expire r else w
  | .expire (.child c) => if w.Known (.child c) then w.expireChild c else w
  | .answer waiter a => if w.Known waiter then w.answer waiter a else w
  | .resume (.run r) => if w.Known (.run r) then w.resumeRun r else w
  | .resume (.child c) => if w.Known (.child c) then w.resumeChild c else w
  | .write writer stream chunk => if w.Known writer then w.write writer stream chunk else w
  | .startChild starter fields => if w.Known starter then w.startChild starter fields else w
  | .edit editor path content => if w.Known editor then w.edit path content else w

end CommandWorker

end WasmHost

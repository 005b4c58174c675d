import Mathlib.Algebra.Order.Ring.Cast
import WasmHost.Web.CommandWorkspace

/-!
# A terminal and its worker

`BrowserTerminalSession` of `terminal.js`, and the system it makes with a command worker: messages
go from the session to the worker and back in the order they were posted, each after any delay. The
system notes which start of the session a run of the worker belongs to and what the worker has
posted for it, which no message says: they have the id of the run only, and the id may be used
again.
-/

namespace WasmHost

/-! ### The session -/

/-- `terminalSizeValue` of the session lets only positive safe integers through. -/
structure TerminalDimension where
  value : ℕ
  pos : 0 < value
  safe : value < 2 ^ 53

/-- A message from the session to the worker. A run message is kept with the number of its
start. -/
inductive SessionMessage
  | run (k : ℕ) (message : RunMessage)
  | stdin (id : Text) (chunk : Bytes)
  | stdinEnd (id : Text)
  | stdinError (id : Text) (error : StdinErrorFields)
  | resize (id : Text) (columns rows : TerminalDimension)
  | cancel (id : Text)

/-- What the worker gets. -/
def SessionMessage.event : SessionMessage → CommandEvent
  | .run _ message => .run message
  | .stdin id chunk => .stdin (some id) ⟨some (.bytes chunk), none⟩
  | .stdinEnd id => .stdinEnd (some id)
  | .stdinError id error => .stdinError (some id) error
  | .resize id columns rows =>
    .resize (some id) ⟨some (.finite columns.value), some (.finite rows.value)⟩
  | .cancel id => .cancel (some id)

/-- The result or the error of a run, with the bytes that were counted. -/
inductive RunOutcome
  | complete (exitCode : ℤ) (stdoutBytes stderrBytes : ℕ)
  | error (error : CommandError) (stdoutBytes stderrBytes : ℕ)
  deriving DecidableEq

/-- The outcome in a terminal message. -/
def CommandPost.outcome? : CommandPost → Option RunOutcome
  | .complete _ exitCode out err => some (.complete exitCode out err)
  | .error _ cause out err => some (.error cause out err)
  | _ => none

/-- What the promise of a start is settled with. `terminalErrorFromMessage` keeps the kind, the
message and the stage of an error. -/
inductive Settlement
  | resolved (exitCode : ℤ) (stdoutBytes stderrBytes : ℕ)
  | rejected (kind message stage : Text)
  deriving DecidableEq

/-- What the promise is settled with. -/
def RunOutcome.settlement : RunOutcome → Settlement
  | .complete exitCode out err => .resolved exitCode out err
  | .error cause _ _ => .rejected cause.kind cause.message cause.stage

/-- What the sink is told. Its `event` function is told the same. -/
inductive SinkCall
  | started (packageId command : Text) (args : List Text) (cwd : Text)
  | write (stream : OutputStream) (bytes : Bytes)
  | close (stream : OutputStream)
  | exit (outcome : RunOutcome)
  deriving DecidableEq

/-- What became of a start: what the sink was told since then, and how the promise was settled. -/
structure StartRecord where
  sink : List SinkCall
  settlements : List Settlement

/-- A session. It listens to its port as long as there is a completion. The records of its starts
are not part of the source. -/
structure TerminalSession where
  id : Option Text
  completion : Bool
  stdoutClosed : Bool
  stderrClosed : Bool
  starts : ℕ
  records : ℕ → StartRecord

/-- What a start is given: the id that the session reads, the size of the terminal as far as the
session replaces it, and what the worker reads of the run. A run that is a field of the run has an
id of its own. -/
structure SessionRun where
  id : Option Text
  terminal : Option (Option NumberValue × Option NumberValue)
  inner : Option Text
  fields : RunMessage

namespace TerminalSession

/-- A session before its first run. -/
def new : TerminalSession where
  id := none
  completion := false
  stdoutClosed := false
  stderrClosed := false
  starts := 0
  records := fun _ => ⟨[], []⟩

theorem toNat_num_pos {q : ℚ} (h : 0 < q) : 0 < q.num.toNat := by
  have := Rat.num_pos.2 h
  omega

theorem toNat_num_lt {q : ℚ} (hint : q.den = 1) (h : q < 2 ^ 53) : q.num.toNat < 2 ^ 53 := by
  have hlt : (q.num : ℚ) < ((2 ^ 53 : ℤ) : ℚ) := by
    rw [(Rat.den_eq_one_iff q).1 hint]
    exact_mod_cast h
  have hnum : q.num < 2 ^ 53 := Int.cast_lt.1 hlt
  omega

/-- `terminalSizeValue`. -/
def terminalSizeValue : NumberValue → Option TerminalDimension
  | .finite q =>
    if h : q.den = 1 ∧ 0 < q ∧ q < 2 ^ 53 then
      some
        { value := q.num.toNat
          pos := toNat_num_pos h.2.1
          safe := toNat_num_lt h.1 h.2.2 }
    else none
  | .other => none

/-- `normalizeTerminalSize`: 80 columns and 24 rows, where there is none. -/
def normalizeTerminalSize (size : Option NumberValue × Option NumberValue) :
    Option (TerminalDimension × TerminalDimension) := do
  let columns ← terminalSizeValue (size.1.getD (.finite 80))
  let rows ← terminalSizeValue (size.2.getD (.finite 24))
  return (columns, rows)

/-- `normalizeRunMessage` of the session, with the id it takes. -/
def normalizeRunMessage (run : SessionRun) : Option (Text × RunMessage) := do
  let id := trim (run.id.getD [])
  if id = [] then none
  else
    let terminal ← run.terminal.mapM normalizeTerminalSize
    return (id, { run.fields with
      messageId := some id
      id := run.inner.or (some id)
      terminal := run.fields.terminal.or (terminal.map fun size =>
        .fields ⟨some (.finite size.1.value), some (.finite size.2.value)⟩) })

/-- `start`, with the message that it posts; `none` where it throws. -/
def start (run : SessionRun) (s : TerminalSession) : Option (RunMessage × TerminalSession) :=
  if s.completion then none
  else (normalizeRunMessage run).map fun (id, message) => (message,
    { s with
      id := some id
      completion := true
      stdoutClosed := false
      stderrClosed := false
      starts := s.starts + 1 })

/-- Something for the record of the last start. -/
def note (f : StartRecord → StartRecord) (s : TerminalSession) : TerminalSession :=
  { s with records :=
      Function.update s.records (s.starts - 1) (f (s.records (s.starts - 1))) }

/-- Calls the sink. -/
def tell (call : SinkCall) : TerminalSession → TerminalSession :=
  note fun record => { record with sink := record.sink ++ [call] }

def closed (s : TerminalSession) : OutputStream → Bool
  | .stdout => s.stdoutClosed
  | .stderr => s.stderrClosed

/-- Closes an output once. -/
def closeOutput (stream : OutputStream) (s : TerminalSession) : TerminalSession :=
  if s.closed stream then s
  else match stream with
  | .stdout => tell (.close .stdout) { s with stdoutClosed := true }
  | .stderr => tell (.close .stderr) { s with stderrClosed := true }

/-- `finish`, which stops listening as well. -/
def finish (outcome : RunOutcome) (s : TerminalSession) : TerminalSession :=
  let s := tell (.exit outcome) (closeOutput .stderr (closeOutput .stdout s))
  { note (fun record =>
      { record with settlements := record.settlements ++ [outcome.settlement] }) s with
    completion := false
    id := none }

/-- `handleMessage`, as long as the session listens. -/
def handleMessage (m : CommandPost) (s : TerminalSession) : TerminalSession :=
  if s.completion ∧ m.id = s.id then
    match m with
    | .started _ packageId command args cwd => s.tell (.started packageId command args cwd)
    | .output _ stream chunk => s.tell (.write stream chunk)
    | .close _ stream => s.closeOutput stream
    | .complete _ exitCode out err => s.finish (.complete exitCode out err)
    | .error _ error out err => s.finish (.error error out err)
  else s

end TerminalSession

/-! ### The session with its worker -/

/-- What a user does at the session. -/
inductive SessionCall
  | start (run : SessionRun)
  | writeStdin (chunk : ChunkValue)
  | closeStdin
  | errorStdin (error : StdinErrorFields)
  | resize (size : Option NumberValue × Option NumberValue)
  | cancel

/-- The message that a call posts but for `start`, or `none` where it throws. -/
def TerminalSession.message? (s : TerminalSession) : SessionCall → Option SessionMessage
  | .start _ => none
  | .writeStdin chunk => do
    let bytes ← (toUint8Array chunk).toOption
    return .stdin (← s.id) bytes
  | .closeStdin => s.id.map .stdinEnd
  | .errorStdin error => s.id.map fun id => .stdinError id
      ⟨error.kind.or (some "transport".toList),
        error.message.or (some "browser terminal stdin failed".toList)⟩
  | .resize size => do
    let (columns, rows) ← normalizeTerminalSize size
    return .resize (← s.id) columns rows
  | .cancel => s.id.map .cancel

/-- A session, its worker, and what is under way between them: the messages that were sent and the
posts of the worker but for those that were received. -/
structure Terminal where
  session : TerminalSession
  sent : List SessionMessage
  worker : CommandWorker
  received : ℕ
  /-- The start that a run of the worker belongs to. -/
  startOf : ℕ → ℕ
  /-- What the worker has posted for the run of a start. -/
  produced : ℕ → List CommandPost

/-- What happens: a call at the session, a message that arrives at either end, and what the worker
does on its own. -/
inductive TerminalEvent
  | call (call : SessionCall)
  | receive
  | work (e : CommandEvent)
  | deliver

/-- The events of a worker that come with a message. -/
def CommandEvent.IsMessage : CommandEvent → Prop
  | .run _ | .stdin _ _ | .stdinEnd _ | .stdinError _ _ | .resize _ _ | .cancel _ => True
  | _ => False

/-- The kind of event decides it. -/
instance : DecidablePred CommandEvent.IsMessage
  | .run _ | .stdin _ _ | .stdinEnd _ | .stdinError _ _ | .resize _ _ | .cancel _ => .isTrue trivial
  | .expire _ | .answer _ _ | .resume _ | .write _ _ _ | .startChild _ _ | .edit _ _ _ =>
    .isFalse id

/-- The run that an event of the worker can post for. -/
def CommandWorker.runOf? (w : CommandWorker) : CommandEvent → Option ℕ
  | .resume (.run r) => some r
  | .write writer _ _ => some (w.lineage writer).1
  | _ => none

namespace Terminal

/-- The terminal before its first call. -/
def start (store : Files) : Terminal where
  session := .new
  sent := []
  worker := .start store
  received := 0
  startOf _ := 0
  produced _ := []

/-- What a step of the worker posts. -/
def newPosts (w w' : CommandWorker) : List CommandPost := w'.posts.drop w.posts.length

/-- What a call does. -/
def call (c : SessionCall) (t : Terminal) : Terminal :=
  match c with
  | .start run =>
    match t.session.start run with
    | none => t
    | some (message, session) =>
      { t with session, sent := t.sent ++ [.run t.session.starts message] }
  | c =>
    match t.session.message? c with
    | none => t
    | some message => { t with sent := t.sent ++ [message] }

/-- The worker takes the next message. -/
def receive (t : Terminal) : Terminal :=
  match t.sent with
  | [] => t
  | message :: rest =>
    let worker := t.worker.step message.event
    match message with
    | .run k _ =>
      { t with
        sent := rest
        worker
        startOf := Function.update t.startOf t.worker.runs.next k
        -- a run message that is refused is answered at once
        produced := Function.update t.produced k (t.produced k ++ newPosts t.worker worker) }
    | _ => { t with sent := rest, worker }

/-- The worker goes on by itself. -/
def work (e : CommandEvent) (t : Terminal) : Terminal :=
  let worker := t.worker.step e
  match t.worker.runOf? e with
  | none => { t with worker }
  | some r =>
    { t with
      worker
      produced := Function.update t.produced (t.startOf r)
        (t.produced (t.startOf r) ++ newPosts t.worker worker) }

/-- The session is handed the next post. -/
def deliver (t : Terminal) : Terminal :=
  match t.worker.posts.drop t.received with
  | [] => t
  | m :: _ =>
    { t with session := t.session.handleMessage m, received := t.received + 1 }

/-- One event. -/
def step (t : Terminal) : TerminalEvent → Terminal
  | .call c => t.call c
  | .receive => t.receive
  | .work e => if e.IsMessage then t else t.work e
  | .deliver => t.deliver

end Terminal

end WasmHost

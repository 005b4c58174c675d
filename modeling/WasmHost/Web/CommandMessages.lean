import Mathlib.Algebra.Order.Ring.Rat
import WasmHost.Web.ByteStream

/-!
# Messages of the command worker

What `command-worker.js` checks of the messages it is sent before it acts on them, and the errors it
makes of whatever was thrown.
-/

namespace WasmHost

/-- `BrowserCommandWorkerError`. -/
structure CommandError where
  kind : Text
  message : Text
  stage : Text
  exitCode : Option ℤ
  cancelled : Bool
  timedOut : Bool
  deriving DecidableEq

namespace CommandError

/-- An error without flags. -/
def new (kind message stage : String) : CommandError :=
  ⟨kind.toList, message.toList, stage.toList, none, false, false⟩

/-- The errors of a message or a request that cannot be used. -/
def invalidRequest (message : String) (stage : String) : CommandError :=
  new "invalid_request" message stage

def cancelledError : CommandError :=
  { new "cancelled" "browser command cancelled" "runtime" with
    exitCode := some 130, cancelled := true }

def timeoutError : CommandError :=
  { new "timeout" "browser command exceeded wall time limit" "runtime" with
    exitCode := some 124, timedOut := true }

def stdinAlreadyClosed : CommandError :=
  invalidRequest "browser command stdin is already closed" "stdio"

/-- The error of a chunk on standard input. -/
def ofFault : ChunkFault → CommandError
  | .notBytes => invalidRequest "command stdin chunks must be bytes" "startup"
  | .badBase64 => invalidRequest "invalid browser command stdin base64" "startup"
  | .notOne =>
    invalidRequest "browser command stdin messages must include exactly one chunk" "stdio"

end CommandError

/-- The fields of a thrown object whose kind is a text. -/
structure ThrownFields where
  kind : Text
  message : Text
  stage : Option Text
  exitCode : Option ℤ
  cancelled : Bool
  timedOut : Bool

/-- A thrown value. What is thrown may be a value whose fields cannot even be read or posted: a
diagnostics count that is no number and becomes none, an exit code that is a function. -/
inductive CommandThrown
  | error (error : CommandError)
  | abort
  | kinded (fields : ThrownFields)
  | plain (message : Option Text)
  | unreadable
  | unpostable (error : CommandError)

/-- `normalizeCommandError`, or `none` where it throws itself. -/
def normalizeCommandError (stage : String) : CommandThrown → Option CommandError
  | .error error => some error
  | .abort => some .cancelledError
  | .kinded fields => some
    { kind := fields.kind
      message := fields.message
      stage := fields.stage.getD stage.toList
      exitCode := fields.exitCode
      cancelled := fields.cancelled
      timedOut := fields.timedOut }
  | .plain message => some
    { CommandError.new "runtime" "browser command worker failed" stage with
      message := message.getD "browser command worker failed".toList }
  | .unreadable => none
  | .unpostable error => some error

/-- Normalizing the value does not throw, and the port takes what comes of it. -/
def CommandThrown.Reportable : CommandThrown → Prop
  | .unreadable => False
  | .unpostable _ => False
  | _ => True

/-- The kind of value decides it. -/
instance : DecidablePred CommandThrown.Reportable
  | .unreadable => inferInstanceAs (Decidable False)
  | .unpostable _ => inferInstanceAs (Decidable False)
  | .error _ => inferInstanceAs (Decidable True)
  | .abort => inferInstanceAs (Decidable True)
  | .kinded _ => inferInstanceAs (Decidable True)
  | .plain _ => inferInstanceAs (Decidable True)

/-- What `Number` makes of a value. -/
inductive NumberValue
  | finite (q : ℚ)
  | other

/-- A size of the terminal. -/
def terminalSizeValue (value : NumberValue) (field : String) : Except CommandError ℕ :=
  let fault : CommandError :=
    .invalidRequest ("browser terminal " ++ field ++ " must be a positive integer") "stdio"
  match value with
  | .finite q => if q.den = 1 ∧ 0 < q ∧ q < 2 ^ 53 then .ok q.num.toNat else .error fault
  | .other => .error fault

/-- A text that is not blank, trimmed. -/
def nonEmptyString (value : Option Text) (stage : String) : Except CommandError Text :=
  let text := trim (value.getD [])
  if text = [] then
    .error (.invalidRequest "browser command fields must be non-empty strings" stage)
  else .ok text

/-- A list whose items are all strings. -/
def normalizeStringList (value : ArrayValue (Option Text)) (stage : String) :
    Except CommandError (List Text) :=
  let fault : CommandError :=
    .invalidRequest "browser command lists must be arrays of strings" stage
  match value with
  | .items l => l.mapM fun item => item.elim (.error fault) .ok
  | .other => .error fault

/-- The time that a run has. -/
def normalizeTimeout : Option NumberValue → Except CommandError (Option ℚ)
  | none => .ok none
  | some (.finite q) =>
    if 0 < q then .ok (some q)
    else .error (.invalidRequest "browser command timeoutMs must be positive" "startup")
  | some .other => .error (.invalidRequest "browser command timeoutMs must be positive" "startup")

/-- The four ways to give a run its standard input. -/
structure StdinFields where
  stdin : Option ChunkValue
  stdinBase64 : Option ChunkValue
  stdinChunks : Option (ArrayValue ChunkValue)
  stdinChunksBase64 : Option (ArrayValue ChunkValue)

/-- The input that a run starts with. -/
def initialStdinChunks (fields : StdinFields) : Except CommandError (List Bytes) :=
  if 1 < fields.stdin.isSome.toNat + fields.stdinBase64.isSome.toNat +
      fields.stdinChunks.isSome.toNat + fields.stdinChunksBase64.isSome.toNat then
    .error (.invalidRequest "browser command run must include at most one stdin field" "startup")
  else match fields.stdin, fields.stdinBase64, fields.stdinChunks, fields.stdinChunksBase64 with
  | some chunk, _, _, _ => ((toUint8Array chunk).mapError .ofFault).map fun b => [b]
  | _, some chunk, _, _ => ((base64ToBytes chunk).mapError .ofFault).map fun b => [b]
  | _, _, some (.items chunks), _ => (chunks.mapM toUint8Array).mapError .ofFault
  | _, _, _, some (.items chunks) => (chunks.mapM base64ToBytes).mapError .ofFault
  | _, _, _, _ => .ok []

/-- A value where an object is expected. -/
inductive ObjectValue (α : Type)
  | fields (value : α)
  | other

/-- A terminal in pixels of text. -/
structure TerminalSize where
  columns : Option ℕ
  rows : Option ℕ

/-- The fields `columns` (or `cols`) and `rows`. -/
structure TerminalFields where
  columns : Option NumberValue
  rows : Option NumberValue

/-- The terminal that a run starts with. -/
def normalizeInitialTerminal :
    Option (ObjectValue TerminalFields) → Except CommandError TerminalSize
  | none => .ok ⟨none, none⟩
  | some .other =>
    .error (.invalidRequest "browser command terminal must be an object" "startup")
  | some (.fields value) => do
    let columns ← value.columns.mapM (terminalSizeValue · "columns")
    let rows ← value.rows.mapM (terminalSizeValue · "rows")
    return ⟨columns, rows⟩

/-- The size of a resize message: a missing number is none. -/
def terminalResizeFromMessage (message : TerminalFields) : Except CommandError TerminalSize := do
  let columns ← terminalSizeValue (message.columns.getD .other) "columns"
  let rows ← terminalSizeValue (message.rows.getD .other) "rows"
  return ⟨some columns, some rows⟩

/-- The package of a run: the default one, the one a catalog gives, or a named one. -/
inductive PackageIdValue
  | absent
  | null
  | text (t : Text)

/-- The package that a run names. -/
def normalizePackageId : PackageIdValue → Except CommandError (Option Text)
  | .absent => .ok (some "default".toList)
  | .null => .ok none
  | .text t => (nonEmptyString (some t) "startup").map some

/-- Diagnostics are asked for. -/
def normalizeRunDiagnostics : Option (ObjectValue Bool) → Except CommandError Bool
  | none => .ok false
  | some .other =>
    .error (.invalidRequest "browser command diagnostics must be an object" "startup")
  | some (.fields unsupportedWasixCalls) => .ok unsupportedWasixCalls

/-- The variables of a run. -/
def normalizeEnv : ObjectValue (List (Text × Text)) → Except CommandError (List (Text × Text))
  | .other => .error (.invalidRequest "browser command env must be an object" "startup")
  | .fields env => .ok env

/-- The fields of a `command.run` message, each in the place it is looked for first. -/
structure RunMessage where
  messageId : Option Text
  id : Option Text
  args : ArrayValue (Option Text)
  command : Option Text
  cwd : Option Text
  diagnostics : Option (ObjectValue Bool)
  env : ObjectValue (List (Text × Text))
  httpTransport : Option Text
  stdin : StdinFields
  packageId : PackageIdValue
  stdinOpen : Bool
  terminal : Option (ObjectValue TerminalFields)
  timeoutMs : Option NumberValue

/-- A run as `normalizeRunMessage` makes it. -/
structure RunRequest where
  args : List Text
  command : Text
  cwd : Text
  diagnostics : Bool
  env : List (Text × Text)
  httpTransport : Option Text
  id : Text
  initialStdin : List Bytes
  packageId : Option Text
  stdinOpen : Bool
  terminal : TerminalSize
  timeoutMs : Option ℚ

/-- The request of a message. -/
def normalizeRunMessage (message : RunMessage) : Except CommandError RunRequest := do
  let id ← nonEmptyString (message.id.or message.messageId) "startup"
  let args ← normalizeStringList message.args "startup"
  let command ← nonEmptyString message.command "startup"
  let cwd ← nonEmptyString (message.cwd.or "/workspace".toList) "startup"
  let diagnostics ← normalizeRunDiagnostics message.diagnostics
  let env ← normalizeEnv message.env
  let initialStdin ← initialStdinChunks message.stdin
  let packageId ← normalizePackageId message.packageId
  let terminal ← normalizeInitialTerminal message.terminal
  let timeoutMs ← normalizeTimeout message.timeoutMs
  return ⟨args, command, cwd, diagnostics, env, message.httpTransport, id, initialStdin, packageId,
    message.stdinOpen, terminal, timeoutMs⟩

/-- The id under which a refused run message is answered. -/
def RunMessage.answerId (message : RunMessage) : Option Text := message.messageId.or message.id

/-- The chunk of a `command.stdin` message. -/
def stdinChunkFromMessage (message : ChunkMessage) : Except CommandError Bytes :=
  (chunkFromMessage message).mapError .ofFault

/-- The texts of the error in a `command.stdin.error` message. -/
structure StdinErrorFields where
  kind : Option Text
  message : Option Text

/-- The error of a message. -/
def errorFromStdinMessage (error : StdinErrorFields) : CommandError :=
  let nonEmpty (value : Option Text) (default : String) : Text :=
    match value with
    | some (c :: rest) => c :: rest
    | _ => default.toList
  { CommandError.new "transport" "" "stdio" with
    kind := nonEmpty error.kind "transport"
    message := nonEmpty error.message "browser command stdin producer failed" }

/-- How a child command's output is taken. -/
inductive OutputMode
  | inherit | pipe
  deriving DecidableEq

/-- Where an output of a child goes. -/
def normalizeChildOutputMode (value : Option Text) (stream : String) :
    Except CommandError OutputMode :=
  let mode := trim (value.getD "pipe".toList)
  if mode = "pipe".toList then .ok .pipe
  else if mode = "inherit".toList then .ok .inherit
  else .error (.invalidRequest
    ("browser child command " ++ stream ++ " mode must be pipe or inherit") "startup")

/-- The fields of the request of a child command that the worker acts on. -/
structure ChildFields where
  args : ArrayValue (Option Text)
  command : Option Text
  stdin : StdinFields
  stdout : Option Text
  stderr : Option Text
  timeoutMs : Option NumberValue
  workspaceSnapshot : Option (Text → Option Bytes)

/-- What is kept of them for the signal, the output and the workspace of the child. -/
structure ChildRequest where
  stdout : OutputMode
  stderr : OutputMode
  timeoutMs : Option ℚ
  workspaceSnapshot : Option (Text → Option Bytes)

/-- The request of a child. -/
def normalizeChildCommandRequest (fields : ChildFields) : Except CommandError ChildRequest := do
  let _ ← normalizeStringList fields.args "startup"
  let _ ← nonEmptyString fields.command "startup"
  let _ ← initialStdinChunks fields.stdin
  let stderr ← normalizeChildOutputMode fields.stderr "stderr"
  let stdout ← normalizeChildOutputMode fields.stdout "stdout"
  let timeoutMs ← normalizeTimeout fields.timeoutMs
  return ⟨stdout, stderr, timeoutMs, fields.workspaceSnapshot⟩

end WasmHost

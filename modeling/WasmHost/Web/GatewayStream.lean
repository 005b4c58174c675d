import Mathlib.Algebra.Order.Ring.Rat
import WasmHost.Http.Message
import WasmHost.Lib.LineReader
import WasmHost.Web.JsRuntime
import WasmHost.Web.Values

/-!
# Streams of the HTTP gateway

How `readGatewayStreamResponse` of `http.js` reads the frames of a gateway, one JSON object a line,
and hands them to the writer of a response. There is no signal to abort it.

What `JSON.parse`, `String` and `toLowerCase` do is the language's (`JsRuntime`), and what the
writer answers is its own (`ResponseWriter`).
-/

namespace WasmHost

open Tool (JsText JsValue js)

/-- An error of the gateway transport. -/
structure GatewayError where
  kind : HttpBridgeErrorKind
  message : JsText
  deriving DecidableEq

/-- `GATEWAY_ERROR_KINDS`. -/
def gatewayErrorKinds : List (String × HttpBridgeErrorKind) :=
  [("invalid_request", .invalidRequest), ("invalid_response", .invalidResponse),
    ("unsupported_scheme", .unsupportedScheme), ("gateway_unavailable", .gatewayUnavailable),
    ("auth_failure", .authFailure), ("cors", .cors), ("timeout", .timeout),
    ("cancelled", .cancelled), ("transport", .transport),
    ("response_too_large", .responseTooLarge)]

def gatewayErrorKind? (kind : JsText) : Option HttpBridgeErrorKind :=
  (gatewayErrorKinds.find? fun entry => js entry.1 = kind).map Prod.snd

/-- What ends a stream: an error of the bridge, something that the writer or the language throws, or
an access to what is not there. -/
inductive StreamThrown (ρ : Type)
  | bridge (error : GatewayError)
  | other (reason : ρ)
  | typeError

variable {ρ : Type}

def invalidResponse (message : JsText) : StreamThrown ρ := .bridge ⟨.invalidResponse, message⟩

/-- A header of the response. -/
structure WireHeader where
  name : JsText
  value : JsText
  deriving DecidableEq

/-- The head of a response. -/
structure ResponseHead where
  status : ℕ
  headers : List WireHeader
  deriving DecidableEq

/-! ### The writer -/

/-- The calls of the response writer. -/
inductive WriterCall
  | start (head : ResponseHead)
  | bodyChunk (chunk : Bytes)
  | finish (head : ResponseHead)
  deriving DecidableEq

/-- The writer has some of its methods, and answers a call by the calls before it. -/
structure ResponseWriter (ρ : Type) where
  start : Bool
  bodyChunk : Bool
  finish : Bool
  answer : List WriterCall → WriterCall → Except ρ Unit

/-- The variables of the loop and the calls that were made. -/
structure StreamState where
  completed : Bool
  responseHead : Option ResponseHead
  responseBodyBytes : ℕ
  calls : List WriterCall

/-- What is thrown, and the calls that were made before. -/
structure StreamFailure (ρ : Type) where
  thrown : StreamThrown ρ
  calls : List WriterCall

namespace StreamState

def new : StreamState := ⟨false, none, 0, []⟩

variable (s : StreamState)

def throws (thrown : StreamThrown ρ) : StreamFailure ρ := ⟨thrown, s.calls⟩

/-- A call of the writer. -/
def call (w : ResponseWriter ρ) (c : WriterCall) : Except (StreamFailure ρ) StreamState :=
  match w.answer s.calls c with
  | .ok () => .ok { s with calls := s.calls ++ [c] }
  | .error reason => .error ⟨.other reason, s.calls ++ [c]⟩

/-- Hands the head to the writer. -/
def startResponse (w : ResponseWriter ρ) (head : ResponseHead) :
    Except (StreamFailure ρ) StreamState :=
  if w.start = true then s.call w (.start head) else .ok s

/-- Hands a chunk to the writer. -/
def writeResponseChunk (w : ResponseWriter ρ) (chunk : Bytes) :
    Except (StreamFailure ρ) StreamState :=
  if w.bodyChunk = true then s.call w (.bodyChunk chunk)
  else .error (s.throws (.bridge ⟨.transport,
    js "HTTP bridge response writer does not support body chunks"⟩))

/-- Tells the writer that the body has ended. -/
def finishResponse (w : ResponseWriter ρ) (head : ResponseHead) :
    Except (StreamFailure ρ) StreamState :=
  if w.finish = true then s.call w (.finish head)
  else .error (s.throws (.bridge ⟨.transport,
    js "HTTP bridge response writer does not support completion"⟩))

end StreamState

/-! ### Frames -/

section

variable (rt : JsRuntime ρ)

/-- `String(value)`. -/
def jsString (value : JsValue) : Except (StreamThrown ρ) JsText :=
  (rt.string value).mapError .other

/-- The status of a response. -/
def validateGatewayResponseStatus (status : JsValue) : Except (StreamThrown ρ) ℕ :=
  let refused : Except (StreamThrown ρ) ℕ := do
    let text ← jsString rt status
    .error (invalidResponse (js "HTTP response status must be between 100 and 599, got " ++ text))
  match status with
  | .number q => if q.den = 1 ∧ 100 ≤ q.num ∧ q.num ≤ 599 then .ok q.num.toNat else refused
  | _ => refused

/-- A header of a response. -/
def gatewayWireHeader (header : JsValue) : Except (StreamThrown ρ) WireHeader := do
  let name ← jsString rt ((header.field "name").orElse (.string []))
  let name := rt.toLowerCase (jsTrim name)
  let value ← jsString rt ((header.field "value").orElse (.string []))
  if name = [] then .error (invalidResponse (js "HTTP gateway header names must be non-empty"))
  else return ⟨name, jsTrim value⟩

/-- The headers of a response. -/
def gatewayWireHeaders (headers : JsValue) : Except (StreamThrown ρ) (List WireHeader) :=
  match headers with
  | .array _ items => items.mapM (gatewayWireHeader rt)
  | _ => .error (invalidResponse (js "HTTP gateway headers must be an array"))

/-- `base64ToBytes` of `http.js`. -/
def gatewayBase64 (value : JsValue) : Except (StreamThrown ρ) Bytes :=
  let refused : Except (StreamThrown ρ) Bytes :=
    .error (invalidResponse (js "invalid gateway body base64"))
  match value with
  | .string t =>
    match Base64.decode (t.map fun u => Char.ofNat u.toNat) with
    | some bytes => .ok bytes
    | none => refused
  | _ => refused

/-- The bytes so far, within the limit. -/
def enforceResponseBodyLimit (total : ℕ) (chunk : Bytes) (limit : ℕ) :
    Except (StreamThrown ρ) ℕ :=
  if limit < total + chunk.length then
    .error (.bridge ⟨.responseTooLarge,
      js "HTTP response body exceeded " ++ js (toString limit) ++ js " bytes"⟩)
  else .ok (total + chunk.length)

/-- What is thrown for an error frame. -/
def decodeGatewayWireError (error : JsValue) : Except (StreamThrown ρ) GatewayError := do
  let kind ← jsString rt ((error.field "kind").orElse (.string []))
  match gatewayErrorKind? kind with
  | none => .error (invalidResponse (js "unknown HTTP gateway error kind: " ++ kind))
  | some kind => do
    let message ← jsString rt ((error.field "message").orElse (.string []))
    return ⟨kind, message⟩

/-- The frame in a line. -/
def parseGatewayStreamFrame (lineBytes : Bytes) : Except (StreamThrown ρ) JsValue :=
  match rt.parse (Utf8.textDecode lineBytes) with
  | .error message =>
    .error (invalidResponse (js "invalid HTTP gateway stream frame: " ++ message))
  | .ok (.object kind fields) => .ok (.object kind fields)
  | .ok _ => .error (invalidResponse (js "HTTP gateway stream frame must be a JSON object"))

variable (w : ResponseWriter ρ) (responseBodyLimit : ℕ)

/-- The head of a response frame. -/
def frameHead (frame : JsValue) : Except (StreamThrown ρ) ResponseHead := do
  let status ← validateGatewayResponseStatus rt (frame.field "status")
  let headers ← gatewayWireHeaders rt ((frame.field "headers").orElse (.array .plain []))
  return ⟨status, headers⟩

/-- Takes the head. -/
def applyResponse (s : StreamState) (frame : JsValue) : Except (StreamFailure ρ) StreamState :=
  if s.responseHead.isSome = true then
    .error (s.throws (invalidResponse (js "HTTP gateway stream sent multiple response frames")))
  else do
    let head ← (frameHead rt frame).mapError s.throws
    StreamState.startResponse { s with responseHead := some head } w head

/-- Takes a chunk of the body. -/
def applyBodyChunk (s : StreamState) (frame : JsValue) : Except (StreamFailure ρ) StreamState :=
  if s.responseHead.isNone = true then
    .error (s.throws (invalidResponse
      (js "HTTP gateway stream body_chunk arrived before response")))
  else do
    let chunk ← (gatewayBase64 (frame.field "body_base64")).mapError s.throws
    let total ← (enforceResponseBodyLimit s.responseBodyBytes chunk responseBodyLimit).mapError
      s.throws
    StreamState.writeResponseChunk { s with responseBodyBytes := total } w chunk

/-- Takes the end of the body. -/
def applyBodyEnd (s : StreamState) : Except (StreamFailure ρ) StreamState :=
  if s.responseHead.isNone = true then
    .error (s.throws (invalidResponse (js "HTTP gateway stream body_end arrived before response")))
  else .ok { s with completed := true }

/-- Takes a frame. -/
def applyFrame (s : StreamState) (frame : JsValue) : Except (StreamFailure ρ) StreamState :=
  if s.completed = true then
    .error (s.throws (invalidResponse (js "HTTP gateway stream sent a frame after body_end")))
  else if (frame.field "type").IsText "response" then applyResponse rt w s frame
  else if (frame.field "type").IsText "body_chunk" then applyBodyChunk w responseBodyLimit s frame
  else if (frame.field "type").IsText "body_end" then applyBodyEnd s
  else if (frame.field "type").IsText "error" then do
    let error ← (decodeGatewayWireError rt frame).mapError s.throws
    .error (s.throws (.bridge error))
  else do
    let type ← (jsString rt (frame.field "type")).mapError s.throws
    .error (s.throws (invalidResponse (js "unknown HTTP gateway stream frame type: " ++ type)))

/-! ### Lines -/

/-- There are blanks only. -/
def isAsciiWhitespace (bytes : Bytes) : Bool :=
  bytes.all fun byte => byte = 9 || byte = 10 || byte = 13 || byte = 32

/-- A line without the carriage return at its end. -/
def withoutReturn (lineBytes : Bytes) : Bytes :=
  if lineBytes.getLast? = some 13 then lineBytes.dropLast else lineBytes

/-- The loop over the lines of the buffer, at one line. -/
def readLine (s : StreamState) (lineBytes : Bytes) : Except (StreamFailure ρ) StreamState :=
  if isAsciiWhitespace (withoutReturn lineBytes) = true then .ok s
  else do
    let frame ← (parseGatewayStreamFrame rt (withoutReturn lineBytes)).mapError s.throws
    applyFrame rt w responseBodyLimit s frame

/-- `gatewayResponseLimit` and `responseBodyLimit`. -/
structure GatewayStreamOptions where
  gatewayResponseLimit : Option ℕ
  responseBodyLimit : Option ℕ

def defaultResponseBodyLimit : ℕ := 16 * 1024 * 1024

namespace GatewayStreamOptions

variable (options : GatewayStreamOptions)

def frameLimit : ℕ := options.gatewayResponseLimit.getD defaultResponseBodyLimit

def bodyLimit : ℕ := options.responseBodyLimit.getD defaultResponseBodyLimit

end GatewayStreamOptions

variable (options : GatewayStreamOptions)

def frameTooLarge : GatewayError :=
  ⟨.responseTooLarge, js "HTTP gateway stream frame exceeded bridge limit"⟩

/-- A chunk is appended to the buffer, and the lines of the buffer are read. -/
def readGatewayChunk (r : Bytes × StreamState) (chunk : Bytes) :
    Except (StreamFailure ρ) (Bytes × StreamState) :=
  LineReader.readChunk 10 (readLine rt w options.bodyLimit) options.frameLimit
    (fun s => s.throws (.bridge frameTooLarge)) r chunk

/-- The end of the stream. -/
def endGatewayStream (r : Bytes × StreamState) : Except (StreamFailure ρ) StreamState :=
  if isAsciiWhitespace r.1 = false then
    .error (r.2.throws (invalidResponse (js "HTTP gateway stream ended with a partial frame")))
  else if r.2.completed = false then
    .error (r.2.throws (invalidResponse (js "HTTP gateway stream did not send body_end")))
  else
    match r.2.responseHead with
    | some head => r.2.finishResponse w head
    | none => .error (r.2.throws .typeError)

/-- The calls of the writer and how the promise settles. -/
structure StreamOutcome (ρ : Type) where
  calls : List WriterCall
  result : Except (StreamThrown ρ) Unit

/-- What the caller sees of a result. -/
def StreamOutcome.of : Except (StreamFailure ρ) StreamState → StreamOutcome ρ
  | .ok s => ⟨s.calls, .ok ()⟩
  | .error failure => ⟨failure.calls, .error failure.thrown⟩

def readGatewayStreamResponse (chunks : List Bytes) : StreamOutcome ρ :=
  .of <| (chunks.foldlM (readGatewayChunk rt w options) ([], .new)).bind (endGatewayStream w)

end

end WasmHost

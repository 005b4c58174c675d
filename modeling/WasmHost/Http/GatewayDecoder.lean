import WasmHost.Http.ResponseAssembly
import WasmHost.Lib.LineReader

/-!
# Responses of the gateway endpoint

The two ways a gateway endpoint answers a request. A buffered response is one JSON object, which
`decode_gateway_wire_response` takes apart and `GatewayHttpResponseWriter::respond` passes on; a
streamed one is a sequence of JSON frames, one a line, which `GatewayStreamResponseDecoder` passes
on while it reads them.

What `serde_json` makes of a frame, and the base64 engine of a text, is theirs (`GatewayCodec`), and
whether an event can be sent is up to the requester (`GatewayHttpResponseWriter`).
-/

namespace WasmHost

/-- A header of a wire frame. -/
structure GatewayWireHeader where
  name : Text
  value : Text

/-- The error of a wire frame. -/
structure GatewayWireError where
  kind : String
  message : String

/-- The frames of a streamed response. -/
inductive GatewayStreamWireResponseFrame
  | response (status : ℕ) (headers : List GatewayWireHeader)
  | bodyChunk (bodyBase64 : Text)
  | bodyEnd
  | error (error : GatewayWireError)

/-- The response of a buffered answer. -/
structure GatewayWireSuccess where
  status : ℕ
  headers : List GatewayWireHeader
  bodyBase64 : Option Text
  bodyChunksBase64 : Option (List Text)

/-- A buffered answer. -/
structure GatewayWireResponse where
  ok : Bool
  response : Option GatewayWireSuccess
  error : Option GatewayWireError

/-- `serde_json::from_slice` for a frame and `BASE64.decode`, with the text of their errors. -/
structure GatewayCodec where
  frame : Bytes → Except String GatewayStreamWireResponseFrame
  base64 : Text → Except String Bytes

/-- The other end of a response writer: what it answers to an event behind those it has got. -/
structure GatewayHttpResponseWriter where
  answer : List HttpBridgeResponseEvent → HttpBridgeResponseEvent → Except HttpBridgeError Unit

/-- An error with the events that were sent before it. -/
structure GatewayFailure where
  error : HttpBridgeError
  sent : List HttpBridgeResponseEvent

/-- The events that were sent, and what the call returns. -/
structure GatewayOutcome where
  sent : List HttpBridgeResponseEvent
  result : Except HttpBridgeError Unit

/-- What the caller sees of a result. -/
def GatewayOutcome.of : Except GatewayFailure (List HttpBridgeResponseEvent) → GatewayOutcome
  | .ok sent => ⟨sent, .ok ()⟩
  | .error failure => ⟨failure.sent, .error failure.error⟩

namespace GatewayHttpResponseWriter

variable (w : GatewayHttpResponseWriter)

/-- Sends an event, unless the receiver refuses it. -/
def send (sent : List HttpBridgeResponseEvent) (event : HttpBridgeResponseEvent) :
    Except GatewayFailure (List HttpBridgeResponseEvent) :=
  match w.answer sent event with
  | .ok _ => .ok (sent ++ [event])
  | .error error => .error ⟨error, sent⟩

/-- `write_body_chunk`. -/
def writeBodyChunk (sent : List HttpBridgeResponseEvent) (chunk : Bytes) :
    Except GatewayFailure (List HttpBridgeResponseEvent) := w.send sent (.body chunk)

/-- Sends a whole response. -/
def finish (sent : List HttpBridgeResponseEvent) (status : ℕ) (headers : List HttpHeader)
    (body : Bytes) : Except GatewayFailure (List HttpBridgeResponseEvent) := do
  let response ← (HttpResponse.new status headers body).mapError (⟨·, sent⟩)
  w.send sent (.complete (.ok response))

end GatewayHttpResponseWriter

/-! ### A buffered response -/

/-- A body that is whole or in chunks. -/
inductive GatewayHttpResponseBody
  | complete (body : Bytes)
  | chunks (chunks : List Bytes)

/-- A response that has been decoded. -/
structure GatewayHttpResponse where
  status : ℕ
  headers : List HttpHeader
  body : GatewayHttpResponseBody

def invalidStatus (status : ℕ) : HttpBridgeError :=
  .invalidResponse ("HTTP response status must be between 100 and 599, got " ++ toString status)

namespace GatewayHttpResponse

/-- `GatewayHttpResponse::complete` and `GatewayHttpResponse::chunks`. -/
def new (status : ℕ) (headers : List HttpHeader) (body : GatewayHttpResponseBody) :
    Except HttpBridgeError GatewayHttpResponse :=
  if 100 ≤ status ∧ status ≤ 599 then .ok ⟨status, headers, body⟩ else .error (invalidStatus status)

def complete (status : ℕ) (headers : List HttpHeader) (body : Bytes) :
    Except HttpBridgeError GatewayHttpResponse := new status headers (.complete body)

def chunks (status : ℕ) (headers : List HttpHeader) (chunks : List Bytes) :
    Except HttpBridgeError GatewayHttpResponse := new status headers (.chunks chunks)

end GatewayHttpResponse

/-- `GatewayHttpResponseWriter::respond`. -/
def GatewayHttpResponseWriter.respond (w : GatewayHttpResponseWriter)
    (response : GatewayHttpResponse) :
    Except GatewayFailure (List HttpBridgeResponseEvent) :=
  match response.body with
  | .complete body => w.finish [] response.status response.headers body
  | .chunks chunks => do
    let sent ← chunks.foldlM w.writeBodyChunk []
    w.finish sent response.status response.headers []

/-- `HttpHeader::new` on every header. -/
def decodeHeaders (headers : List GatewayWireHeader) : Except HttpBridgeError (List HttpHeader) :=
  headers.mapM fun header => HttpHeader.new header.name header.value

/-- `decode_gateway_wire_error`. -/
def GatewayWireError.decode (error : GatewayWireError) : Except HttpBridgeError HttpBridgeError :=
  match error.kind with
  | "invalid_request" => .ok ⟨.invalidRequest, error.message⟩
  | "invalid_response" => .ok ⟨.invalidResponse, error.message⟩
  | "unsupported_scheme" => .ok ⟨.unsupportedScheme, error.message⟩
  | "gateway_unavailable" => .ok ⟨.gatewayUnavailable, error.message⟩
  | "auth_failure" => .ok ⟨.authFailure, error.message⟩
  | "cors" => .ok ⟨.cors, error.message⟩
  | "timeout" => .ok ⟨.timeout, error.message⟩
  | "cancelled" => .ok ⟨.cancelled, error.message⟩
  | "transport" => .ok ⟨.transport, error.message⟩
  | "response_too_large" => .ok ⟨.responseTooLarge, error.message⟩
  | kind => .error (.invalidResponse ("unknown HTTP gateway error kind: " ++ kind))

/-- `Err(decode_gateway_wire_error(error)?)`: one of the two errors. -/
def gatewayWireError (error : GatewayWireError) : HttpBridgeError :=
  match error.decode with
  | .ok decoded => decoded
  | .error unknown => unknown

section Decoding

variable (codec : GatewayCodec) (w : GatewayHttpResponseWriter)

/-- The bytes of a body in base 64. -/
def decodeGatewayBody (value : Text) : Except HttpBridgeError Bytes :=
  (codec.base64 value).mapError fun error =>
    .invalidResponse ("invalid gateway body base64: " ++ error)

/-- The body of a success response, `body_base64` or `body_chunks_base64`. -/
def decodeGatewayResponseBody (status : ℕ) (headers : List HttpHeader) :
    Option Text → Option (List Text) → Except HttpBridgeError GatewayHttpResponse
  | some _, some _ => .error (.invalidResponse
      "HTTP gateway response cannot include both body_base64 and body_chunks_base64")
  | some body, none => do
    let body ← decodeGatewayBody codec body
    GatewayHttpResponse.complete status headers body
  | none, some chunks => do
    let chunks ← chunks.mapM (decodeGatewayBody codec)
    GatewayHttpResponse.chunks status headers chunks
  | none, none => GatewayHttpResponse.complete status headers []

/-- The response that the gateway writes. -/
def decodeGatewayWireResponse (wire : GatewayWireResponse) :
    Except HttpBridgeError GatewayHttpResponse :=
  if wire.ok = false then
    match wire.error with
    | none => .error (.invalidResponse "HTTP gateway error response is missing error")
    | some error => .error (gatewayWireError error)
  else
    match wire.response with
    | none => .error (.invalidResponse "HTTP gateway success response is missing response")
    | some response => do
      let headers ← decodeHeaders response.headers
      decodeGatewayResponseBody codec response.status headers response.bodyBase64
        response.bodyChunksBase64

/-- `response.respond(decode_gateway_wire_response(wire)?)`. -/
def respondBuffered (wire : GatewayWireResponse) : GatewayOutcome :=
  .of <| ((decodeGatewayWireResponse codec wire).mapError (⟨·, []⟩)).bind w.respond

/-! ### A streamed response -/

/-- The decoder of a stream but for its buffer, with what its writer has sent. -/
structure GatewayStreamResponseDecoder where
  sent : List HttpBridgeResponseEvent
  response : Option (ℕ × List HttpHeader)
  completed : Bool

def httpGatewayResponseBodyLimit : ℕ := 16 * 1024 * 1024

namespace GatewayStreamResponseDecoder

def new : GatewayStreamResponseDecoder := ⟨[], none, false⟩

variable (s : GatewayStreamResponseDecoder)

def fail (error : HttpBridgeError) : GatewayFailure := ⟨error, s.sent⟩

/-- Takes a frame. -/
def apply : GatewayStreamWireResponseFrame → Except GatewayFailure GatewayStreamResponseDecoder :=
  fun frame =>
  if s.completed then
    .error (s.fail (.invalidResponse "HTTP gateway stream sent a frame after body_end"))
  else
    match frame with
    | .response status headers =>
      if s.response.isSome then
        .error (s.fail (.invalidResponse "HTTP gateway stream sent multiple response frames"))
      else do
        let headers ← (decodeHeaders headers).mapError s.fail
        .ok { s with response := some (status, headers) }
    | .bodyChunk bodyBase64 =>
      if s.response.isNone then
        .error (s.fail (.invalidResponse
          "HTTP gateway stream body_chunk arrived before response"))
      else do
        let chunk ← (decodeGatewayBody codec bodyBase64).mapError s.fail
        let sent ← w.writeBodyChunk s.sent chunk
        .ok { s with sent := sent }
    | .bodyEnd =>
      if s.response.isNone then
        .error (s.fail (.invalidResponse "HTTP gateway stream body_end arrived before response"))
      else .ok { s with completed := true }
    | .error error => .error (s.fail (gatewayWireError error))

/-- A line without the carriage return at its end. -/
def lineContent (line : Bytes) : Bytes :=
  if line.getLast? = some 13 then line.dropLast else line

/-- The loop of `push`, at one line. -/
def readLine (line : Bytes) : Except GatewayFailure GatewayStreamResponseDecoder :=
  if lineContent line = [] then .ok s
  else do
    let frame ← (codec.frame (lineContent line)).mapError fun error =>
      s.fail (.invalidResponse ("invalid HTTP gateway stream frame: " ++ error))
    s.apply codec w frame

/-- `push`, on the buffer and the rest of the decoder. -/
def push (r : Bytes × GatewayStreamResponseDecoder) (chunk : Bytes) :
    Except GatewayFailure (Bytes × GatewayStreamResponseDecoder) :=
  LineReader.readChunk 10 (readLine codec w) httpGatewayResponseBodyLimit
    (fail · (.responseTooLarge "HTTP gateway stream frame exceeded bridge limit")) r chunk

/-- `u8::is_ascii_whitespace`, of every byte. -/
def isBlank (bytes : Bytes) : Bool :=
  bytes.all fun byte => byte = 9 || byte = 10 || byte = 12 || byte = 13 || byte = 32

/-- Takes the end of the stream. -/
def finish (r : Bytes × GatewayStreamResponseDecoder) :
    Except GatewayFailure (List HttpBridgeResponseEvent) :=
  if isBlank r.1 = false then
    .error (r.2.fail (.invalidResponse "HTTP gateway stream ended with a partial frame"))
  else if r.2.completed = false then
    .error (r.2.fail (.invalidResponse "HTTP gateway stream did not send body_end"))
  else
    match r.2.response with
    | none =>
      .error (r.2.fail (.invalidResponse "HTTP gateway stream body_end arrived before response"))
    | some (status, headers) => w.finish r.2.sent status headers []

end GatewayStreamResponseDecoder

/-- A stream that is pushed in pieces, with the first error ending it. -/
def respondStreamed (pieces : List Bytes) : GatewayOutcome :=
  .of <| (pieces.foldlM (GatewayStreamResponseDecoder.push codec w) ([], .new)).bind
    (GatewayStreamResponseDecoder.finish w)

end Decoding

end WasmHost

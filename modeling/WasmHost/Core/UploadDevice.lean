import WasmHost.Http.Exchange
import WasmHost.Lib.Run

/-!
# The upload device

`HttpBridgeDeviceFile` of `lib.rs` with a streaming upload behind it. Three parties run at once: the
guest, whose writes and reads are calls of the device that may block; the bridge thread, which runs
`request_streaming_blocking` and sends the encoded result; and the body producer, which turns upload
events into body events. `UploadSystem.step?` is one step of one of them, or of the transport, or of
the world outside (the run is cancelled, the wall time expires), and `none` where that party is
blocked. Each check of a loop is a step of its own.
-/

namespace WasmHost

/-! ### Frames and results -/

/-- A header of a device frame. -/
structure HttpBridgeDeviceHeader where
  name : Text
  value : Text

/-- The frames that a guest writes. -/
inductive HttpBridgeDeviceStreamFrame
  | request (method url : Text) (headers : List HttpBridgeDeviceHeader)
      (responseBodyLimit timeoutMs : Option ℕ)
  | bodyChunk (bodyBase64 : Text)
  | bodyEnd

/-- The response in a device answer. -/
structure HttpBridgeDeviceSuccess where
  status : ℕ
  headers : List HttpBridgeDeviceHeader
  bodyBase64 : Text

/-- The error in a device answer. -/
structure HttpBridgeDeviceError where
  kind : String
  message : String

/-- The answer that a guest reads. -/
structure HttpBridgeDeviceResponse where
  ok : Bool
  response : Option HttpBridgeDeviceSuccess
  error : Option HttpBridgeDeviceError

/-- The parsers and printers of the libraries that the device calls: `serde_json` for frames and
responses, `base64` for bodies. -/
structure DeviceCodec where
  frame : Bytes → Except String HttpBridgeDeviceStreamFrame
  declaresFrame : Bytes → Bool
  decode : Text → Except String Bytes
  encode : Bytes → Text
  toVec : HttpBridgeDeviceResponse → Bytes

def httpBridgeErrorKindName : HttpBridgeErrorKind → String
  | .invalidRequest => "invalid_request"
  | .invalidResponse => "invalid_response"
  | .unsupportedScheme => "unsupported_scheme"
  | .gatewayUnavailable => "gateway_unavailable"
  | .authFailure => "auth_failure"
  | .cors => "cors"
  | .timeout => "timeout"
  | .cancelled => "cancelled"
  | .transport => "transport"
  | .responseTooLarge => "response_too_large"

/-- `http_bridge_device_success_from_response`. -/
def httpBridgeDeviceSuccess (codec : DeviceCodec) (response : HttpResponse) :
    HttpBridgeDeviceSuccess where
  status := response.status
  headers := response.headers.map fun header => ⟨header.name, header.value⟩
  bodyBase64 := codec.encode response.body

/-- `encode_http_bridge_device_result`, on the result of a request. -/
def encodeHttpBridgeDeviceResult (codec : DeviceCodec) :
    Except HttpBridgeError HttpResponse → Bytes
  | .ok response => codec.toVec ⟨true, some (httpBridgeDeviceSuccess codec response), none⟩
  | .error error =>
    codec.toVec ⟨false, none, some ⟨httpBridgeErrorKindName error.kind, error.message⟩⟩

/-- `http_bridge_device_wall_time`, in nanoseconds. -/
def httpBridgeDeviceWallTime (inherited timeoutMs : Option ℕ) :
    Except HttpBridgeError (Option ℕ) :=
  match timeoutMs with
  | none => .ok inherited
  | some 0 => .error (.invalidRequest "HTTP request timeout_ms must be positive")
  | some timeout =>
    match inherited with
    | some inherited => .ok (some (min (timeout * 1000000) inherited))
    | none => .ok (some (timeout * 1000000))

def defaultResponseBodyBytes : ℕ := 16 * 1024 * 1024

/-- What `start_http_bridge_device_upload` checks before it starts the threads. -/
def uploadRequest (wallTime : Option ℕ) (method url : Text) (headers : List HttpBridgeDeviceHeader)
    (responseBodyLimit timeoutMs : Option ℕ) :
    Except HttpBridgeError (HttpRequest × HttpRequestLimits) := do
  let wallTime ← httpBridgeDeviceWallTime wallTime timeoutMs
  let headers ← headers.mapM fun header => HttpHeader.new header.name header.value
  let request ← HttpRequest.new method url headers []
  return (request, ⟨responseBodyLimit.getD defaultResponseBodyBytes, wallTime⟩)

/-! ### The threads of an upload -/

/-- What the device sends to the producer. -/
inductive HttpBridgeDeviceUploadEvent
  | chunk (bytes : Bytes)
  | finish
  | fail (error : HttpBridgeError)

def httpBridgeDeviceUploadQueueSize : ℕ := 1

/-- Where the body producer stands: waiting for an upload event, writing a chunk, or, its closure
and with it the receiver of upload events gone, in `finish` or `fail` of its writer. -/
inductive UploadProducer
  | receiving
  | writing (chunk : Bytes) (point : SendPoint)
  | ending (result : Except HttpBridgeError Unit) (point : SendPoint)
  | finished

/-- The closure of the producer is running, so that upload events are received. -/
def UploadProducer.isReceiver : UploadProducer → Bool
  | .receiving => true
  | .writing _ _ => true
  | .ending _ _ => false
  | .finished => false

/-- The threads and channels of one upload. The bridge thread polls until its exchange has a result,
cancels and joins the producer, and sends the encoded result as `response`. -/
structure Upload where
  limits : HttpRequestLimits
  exchange : Exchange
  producer : UploadProducer
  producerCancelled : Bool
  events : List HttpBridgeDeviceUploadEvent
  /-- The device holds no sender of upload events any more. -/
  senderGone : Bool
  expired : Bool
  response : Option Bytes

namespace Upload

/-- The upload before its first event. -/
def start (limits : HttpRequestLimits) : Upload where
  limits := limits
  exchange := .start
  producer := .receiving
  producerCancelled := false
  events := []
  senderGone := false
  expired := false
  response := none

/-- A step of the bridge thread. -/
def bridge (codec : DeviceCodec) (cancelled : Bool) (room : TrySend) (u : Upload) :
    Option Upload :=
  match u.response with
  | some _ => none
  | none =>
    match u.exchange.result? with
    | none => some { u with exchange := u.exchange.poll u.limits cancelled u.expired room }
    | some result =>
      if u.producerCancelled then
        match u.producer with
        | .finished => some { u with response := some (encodeHttpBridgeDeviceResult codec result) }
        -- blocked in the join
        | _ => none
      else some { u with producerCancelled := true }

/-- The closure returns: its receiver is dropped, and the writer is told the result. -/
def endProducer (result : Except HttpBridgeError Unit) (u : Upload) : Upload :=
  { u with producer := .ending result .cancelled, events := [] }

/-- A step of the body producer. -/
def produce (u : Upload) : Option Upload :=
  match u.producer with
  | .receiving =>
    match u.events with
    | .chunk chunk :: rest =>
      -- an empty chunk is written without an event
      if chunk = [] then some { u with events := rest }
      else some { u with producer := .writing chunk .cancelled, events := rest }
    | .finish :: _ => some (u.endProducer (.ok ()))
    | .fail error :: _ => some (u.endProducer (.error error))
    | [] =>
      if u.senderGone then some (u.endProducer
        (.error (.transport "HTTP request body stream closed before completion")))
      -- blocked in `recv`
      else none
  | .writing chunk point =>
    match HttpRequestBodyWriter.sendEvent u.producerCancelled (.chunk chunk) u.exchange point with
    | (.again point, exchange) =>
      some { u with producer := .writing chunk point, exchange := exchange }
    | (.done (.ok _), exchange) => some { u with producer := .receiving, exchange := exchange }
    | (.done (.error error), exchange) =>
      some ({ u with exchange := exchange }.endProducer (.error error))
  | .ending result point =>
    match HttpRequestBodyWriter.sendEvent u.producerCancelled (.complete result) u.exchange point
      with
    | (.again point, exchange) =>
      some { u with producer := .ending result point, exchange := exchange }
    | (.done _, exchange) => some { u with producer := .finished, exchange := exchange }
  | .finished => none

/-- An operation of the transport. The writer of the body is gone with the producer. -/
def transport (op : TransportOp) (u : Upload) : Option Upload :=
  let gone := match u.producer with
    | .finished => true
    | _ => false
  (u.exchange.transport gone op).map fun exchange => { u with exchange := exchange }

end Upload

/-! ### The device and the guest -/

/-- What the device keeps of an upload; its channel ends are those of the `Upload`. -/
structure HttpBridgeDeviceUploadState where
  closed : Bool

/-- The state of the device file. -/
structure HttpBridgeDeviceFile where
  wallTime : Option ℕ
  request : Bytes
  upload : Option HttpBridgeDeviceUploadState
  response : Option Bytes
  resetResponseCursor : Bool
  cursor : ℕ

/-- What a call of the device does once `send_event_blocking` has returned. -/
inductive AfterSend
  | chunkFrame
  | endFrame
  | failFrame
  | read (room : ℕ)

/-- Where the guest stands: between two calls, with what the last one has read, or in a call that
sends an upload event or waits for the response. -/
inductive DeviceGuest
  | running (output : Option Bytes)
  | sending (event : HttpBridgeDeviceUploadEvent) (point : SendPoint) (next : AfterSend)
  | awaiting (room : ℕ)

/-- The device, its guest and the threads of an upload. -/
structure UploadSystem where
  device : HttpBridgeDeviceFile
  guest : DeviceGuest
  /-- The threads of the last upload, while the device keeps anything of it. -/
  upload : Option Upload
  cancelled : Bool

namespace UploadSystem

/-- A device file that has just been opened. -/
def opened (wallTime : Option ℕ) : UploadSystem where
  device := ⟨wallTime, [], none, none, false, 0⟩
  guest := .running none
  upload := none
  cancelled := false

section Calls

variable (codec : DeviceCodec)

/-- `set_response_from_write`. -/
def setResponseFromWrite (error : HttpBridgeError) (s : UploadSystem) : UploadSystem :=
  { s with
    device := { s.device with
      response := some (encodeHttpBridgeDeviceResult codec (.error error))
      cursor := 0
      resetResponseCursor := true } }

variable (s : UploadSystem)

/-- A write returns. -/
def wrote : UploadSystem := { s with guest := .running none }

def close : UploadSystem :=
  { s with device := { s.device with upload := s.device.upload.map fun _ => ⟨true⟩ } }

/-- What follows the return of `send_event_blocking`. -/
def sent (result : Except HttpBridgeError Unit) (next : AfterSend) (s : UploadSystem) :
    UploadSystem :=
  match next with
  | .chunkFrame =>
    match result with
    | .ok _ => s.wrote
    | .error error => (s.setResponseFromWrite codec error).wrote
  | .endFrame =>
    match result with
    | .ok _ => s.close.wrote
    | .error error => (s.setResponseFromWrite codec error).close.wrote
  | .failFrame => s.close.wrote
  | .read room => { s with guest := .awaiting room }

/-- `send_upload_event`, up to the loop of `send_event_blocking`. -/
def sendUploadEvent (state : HttpBridgeDeviceUploadState) (event : HttpBridgeDeviceUploadEvent)
    (next : AfterSend) (s : UploadSystem) : UploadSystem :=
  if state.closed then
    s.sent codec (.error (.invalidRequest "HTTP request body stream is already closed")) next
  else { s with guest := .sending event .cancelled next }

/-- `fail_upload`, up to that loop. -/
def failUpload (state : HttpBridgeDeviceUploadState) (error : HttpBridgeError) (s : UploadSystem) :
    UploadSystem :=
  if state.closed then s.wrote else { s with guest := .sending (.fail error) .cancelled .failFrame }

/-- `write_upload_frame`. -/
def writeUploadFrame (state : HttpBridgeDeviceUploadState) (buf : Bytes) (s : UploadSystem) :
    UploadSystem :=
  match codec.frame buf with
  | .error error =>
    s.failUpload state (.invalidRequest ("invalid HTTP bridge upload frame: " ++ error))
  | .ok (.bodyChunk bodyBase64) =>
    match codec.decode bodyBase64 with
    | .error error =>
      s.failUpload state (.invalidRequest ("invalid HTTP bridge request body chunk: " ++ error))
    | .ok chunk => s.sendUploadEvent codec state (.chunk chunk) .chunkFrame
  | .ok .bodyEnd => s.sendUploadEvent codec state .finish .endFrame
  | .ok (.request ..) =>
    s.failUpload state (.invalidRequest "HTTP request body stream is already active")

/-- The frames that `write_device_data` takes while no upload is active. -/
def writeFirstFrame (buf : Bytes) (s : UploadSystem) : UploadSystem :=
  match codec.frame buf with
  | .ok (.request method url headers responseBodyLimit timeoutMs) =>
    match uploadRequest s.device.wallTime method url headers responseBodyLimit timeoutMs with
    | .ok (_, limits) =>
      { s with
        device := { s.device with upload := some ⟨false⟩ }
        guest := .running none
        upload := some (.start limits) }
    | .error error => (s.setResponseFromWrite codec error).wrote
  | .ok _ =>
    (s.setResponseFromWrite codec
      (.invalidRequest "HTTP request body stream must start with a request frame")).wrote
  | .error error =>
    if codec.declaresFrame buf then
      (s.setResponseFromWrite codec
        (.invalidRequest ("invalid HTTP bridge upload frame: " ++ error))).wrote
    else { s with device := { s.device with request := s.device.request ++ buf } }.wrote

/-- A response that the guest has seen is given up, and with it the request and the upload. -/
def forgetResponse : UploadSystem :=
  if s.device.response.isSome then
    { s with
      device := { s.device with request := [], upload := none }
      upload := none }
  else s

/-- `write_device_data`. -/
def write (buf : Bytes) (s : UploadSystem) : UploadSystem :=
  if s.device.response.isSome ∧ s.device.resetResponseCursor then s.wrote
  else
    let s := s.forgetResponse
    let s := { s with
      device := { s.device with response := none, resetResponseCursor := false, cursor := 0 } }
    match s.device.upload with
    | some state => s.writeUploadFrame codec state buf
    | none => s.writeFirstFrame codec buf

/-- The end of `poll_read`: what is left of the response, as far as the buffer has room. -/
def deliver (room : ℕ) (response : Bytes) (s : UploadSystem) : UploadSystem :=
  let bytes := (response.drop s.device.cursor).take room
  { s with
    device := { s.device with cursor := s.device.cursor + bytes.length }
    guest := .running (some bytes) }

/-- A response that has just come is delivered from its start. -/
def respond (room : ℕ) (response : Bytes) (s : UploadSystem) : UploadSystem :=
  deliver room response { s with
    device := { s.device with
      response := some response, cursor := 0, resetResponseCursor := false } }

/-- `poll_read`, up to where it blocks. `answer` is that of `handle_http_bridge_device_request`. -/
def read (room : ℕ) (answer : Bytes) (s : UploadSystem) : UploadSystem :=
  match s.device.response with
  | some response =>
    if s.device.resetResponseCursor then s.respond room response else s.deliver room response
  | none =>
    match s.device.upload with
    | none => s.respond room answer
    | some state =>
      -- `read_upload_response` takes the upload out of the device
      let s := { s with device := { s.device with upload := none } }
      if state.closed then { s with guest := .awaiting room }
      else
        let error := .invalidRequest
          "HTTP request body stream must be completed with a body_end frame before reading"
        { s with guest := .sending (.fail error) .cancelled (.read room) }

/-- The guest goes on in a call. -/
def goOn : Option UploadSystem :=
  match s.guest, s.upload with
  | .sending event point next, some u =>
    match point with
    | .cancelled =>
      if s.cancelled then some (s.sent codec (.error (.cancelled "HTTP request cancelled")) next)
      else some { s with guest := .sending event .channel next }
    | .channel =>
      if ¬ u.producer.isReceiver then
        some (s.sent codec (.error (.transport "HTTP request body stream receiver closed")) next)
      else if u.events.length < httpBridgeDeviceUploadQueueSize then
        some ({ s with upload := some { u with events := u.events ++ [event] } }.sent codec
          (.ok ()) next)
      else some { s with guest := .sending event .cancelled next }
  | .awaiting room, some u =>
    match u.response with
    | some response =>
      some ({ s with upload := some { u with senderGone := true } }.respond room response)
    -- blocked in `recv`
    | none => none
  | _, _ => none

end Calls

/-- Who takes a step, and what it chooses. -/
inductive Step
  | write (buf : Bytes)
  | read (room : ℕ) (answer : Bytes)
  | seek (position : ℕ)
  | goOn
  | bridge (room : TrySend)
  | produce
  | transport (op : TransportOp)
  | cancel
  | expire

/-- One of the three parties takes the step. -/
def Step.byParty : Step → Bool
  | .transport _ => false
  | .cancel => false
  | .expire => false
  | _ => true

/-- A step of the threads of the upload. -/
def onUpload (f : Upload → Option Upload) (s : UploadSystem) : Option UploadSystem :=
  match s.upload with
  | some u => (f u).map fun u => { s with upload := some u }
  | none => none

/-- A call of the guest, which runs nothing else meanwhile. -/
def call (f : UploadSystem → UploadSystem) (s : UploadSystem) : Option UploadSystem :=
  match s.guest with
  | .running _ => some (f s)
  | _ => none

/-- The state after a step, or `none` where it cannot be taken. -/
def step? (codec : DeviceCodec) (s : UploadSystem) : Step → Option UploadSystem
  | .write buf => s.call (write codec buf)
  | .read room answer => s.call (read room answer)
  | .seek position =>
    s.call fun s => { s with
      device := { s.device with cursor := position }
      guest := .running none }
  | .goOn => s.goOn codec
  | .bridge room => s.onUpload fun u => u.bridge codec s.cancelled room
  | .produce => s.onUpload Upload.produce
  | .transport op => s.onUpload fun u => u.transport op
  | .cancel => some { s with cancelled := true }
  | .expire =>
    s.onUpload fun u => if u.limits.wallTime.isSome then some { u with expired := true } else none

/-- A blocked party stays where it is. -/
def step (codec : DeviceCodec) (s : UploadSystem) (event : Step) : UploadSystem :=
  (s.step? codec event).getD s

end UploadSystem

end WasmHost

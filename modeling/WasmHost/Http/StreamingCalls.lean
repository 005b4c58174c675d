import WasmHost.Http.Exchange
import WasmHost.Lib.Run

/-!
# The two calls for a streaming request

`HttpBridge::request_streaming_blocking` runs the body producer on a thread of its own, ignores what
it returns and joins it. `HttpBridge::request_streaming_async` polls the producer and the request in
one `select!` and returns the first error. Both are one system here, whose steps differ in these
two points only, driven by a schedule and by what the transport does, operation by operation.

Whatever the blocking call can return, the asynchronous call can return too
(`StreamingCall.canReturn_async`). The asynchronous call has one more result, the error of a writer
that finds the receiver of the body closed, and it has it exactly where the transport lets go of the
request with the body unread while the caller may still wait for the response.
-/

namespace WasmHost

/-- A producer that writes its chunks and then returns `ending`, at the place of the loop that
sends its next event. -/
inductive BodyProducer
  | writing (chunks : List Bytes) (ending : Except HttpBridgeError Unit) (point : SendPoint)
  | finished (result : Except HttpBridgeError Unit)

namespace BodyProducer

/-- One step of a producer and of the `finish` or `fail` behind it. -/
def step (cancelled : Bool) : BodyProducer → Exchange → BodyProducer × Exchange
  | .finished result, x => (.finished result, x)
  | .writing [] ending point, x =>
    match HttpRequestBodyWriter.sendEvent cancelled (.complete ending) x point with
    | (.again point, x) => (.writing [] ending point, x)
    | (.done result, x) => (.finished result, x)
  | .writing (chunk :: chunks) ending point, x =>
    -- an empty chunk is written without an event
    if chunk = [] then (.writing chunks ending .cancelled, x)
    else
      match HttpRequestBodyWriter.sendEvent cancelled (.chunk chunk) x point with
      | (.again point, x) => (.writing (chunk :: chunks) ending point, x)
      | (.done (.ok _), x) => (.writing chunks ending .cancelled, x)
      | (.done (.error error), x) => (.writing [] (.error error) .cancelled, x)

/-- The producer and its writer are gone. -/
def isFinished : BodyProducer → Bool
  | .writing _ _ _ => false
  | .finished _ => true

end BodyProducer

/-- The two ways to send a streamed request. -/
inductive CallMode
  | blocking | async

/-- A call of `request_streaming_blocking` or of `request_streaming_async`. -/
structure StreamingCall where
  exchange : Exchange
  producer : BodyProducer
  producerCancelled : Bool
  /-- How many operations the transport has made. -/
  turn : ℕ
  cancelled : Bool
  expired : Bool
  result : Option (Except HttpBridgeError HttpResponse)

/-- What a schedule can choose next. -/
inductive CallEvent
  | poll (room : TrySend)
  | produce
  | transport
  | cancel
  | expire

namespace StreamingCall

/-- The call before its first step. -/
def start (request : HttpRequest) (chunks : List Bytes) (ending : Except HttpBridgeError Unit) :
    StreamingCall where
  exchange := .start
  producer := .writing chunks ending .cancelled
  producerCancelled := false
  turn := 0
  cancelled := false
  expired := false
  result :=
    if request.body = [] then none
    else some (.error (.invalidRequest
      "streaming HTTP requests cannot include a buffered request body"))

section Steps

variable (limits : HttpRequestLimits) (op : ℕ → TransportOp)

/-- The caller polls. -/
def pollRequest (room : TrySend) (s : StreamingCall) : StreamingCall :=
  { s with exchange := s.exchange.poll limits s.cancelled s.expired room }

/-- The arm of the `select!` for the request. -/
def pollAsync (room : TrySend) (s : StreamingCall) : StreamingCall :=
  let s := s.pollRequest limits room
  match s.exchange.result? with
  | some result => { s with producerCancelled := true, result := some result }
  | none => s

/-- `request_blocking_inner`, then the cancellation of the producer and the join. -/
def pollBlocking (room : TrySend) (s : StreamingCall) : StreamingCall :=
  match s.exchange.result? with
  | none => s.pollRequest limits room
  | some result =>
    if s.producerCancelled then
      if s.producer.isFinished then { s with result := some result } else s
    else { s with producerCancelled := true }

/-- A step of the producer. -/
def produceBlocking (s : StreamingCall) : StreamingCall :=
  let (producer, exchange) := s.producer.step s.producerCancelled s.exchange
  { s with producer := producer, exchange := exchange }

/-- The arm of the `select!` for the producer: its error is the result of the call. -/
def produceAsync (s : StreamingCall) : StreamingCall :=
  let s := s.produceBlocking
  match s.producer with
  | .finished (.error error) =>
    { s with producerCancelled := true, result := some (.error error) }
  | _ => s

/-- The writer of the body is gone: the thread of a blocking call drops it with the producer, an
asynchronous call keeps it until it returns. -/
def writerGone (mode : CallMode) (s : StreamingCall) : Bool :=
  match mode with
  | .blocking => s.producer.isFinished
  | .async => false

/-- The next operation of the transport, if it need not wait. -/
def operate (mode : CallMode) (s : StreamingCall) : StreamingCall :=
  match s.exchange.transport (s.writerGone mode) (op s.turn) with
  | some exchange => { s with exchange := exchange, turn := s.turn + 1 }
  | none => s

/-- A step of a call that has not returned. -/
def advance (mode : CallMode) (s : StreamingCall) : CallEvent → StreamingCall
  | .poll room =>
    match mode with
    | .blocking => s.pollBlocking limits room
    | .async => s.pollAsync limits room
  | .produce =>
    match mode with
    | .blocking => s.produceBlocking
    | .async => s.produceAsync
  | .transport => s.operate op mode
  | .cancel => { s with cancelled := true }
  | .expire => if limits.wallTime.isSome then { s with expired := true } else s

def step (mode : CallMode) (s : StreamingCall) (event : CallEvent) : StreamingCall :=
  if s.result.isSome then s else s.advance limits op mode event

end Steps

end StreamingCall

end WasmHost

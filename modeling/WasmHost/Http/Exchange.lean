import WasmHost.Http.Message

/-!
# One streaming request between its caller and the transport

What a call of the bridge and the code that answers it share: the request with the two channel
ends it carries, the queue of body events, the queue of response events, and the loop of the
caller (`request_blocking_inner` and `request_async_with_stream`, which differ in how they
sleep). Each check of a loop is a step of its own, so that other threads may act between a check
and what follows it.
-/

namespace WasmHost

/-- `HttpRequestLimits`, the wall time in nanoseconds. -/
structure HttpRequestLimits where
  responseBodyBytes : ℕ
  wallTime : Option ℕ

/-- What a request body writer sends. -/
inductive HttpRequestBodyEvent
  | chunk (bytes : Bytes)
  | complete (result : Except HttpBridgeError Unit)

/-- What a transport sends. -/
inductive HttpBridgeResponseEvent
  | body (chunk : Bytes)
  | complete (result : Except HttpBridgeError HttpResponse)

def httpRequestBodyEventQueueSize : ℕ := 1

def httpResponseEventQueueSize : ℕ := 1

/-- The error of a writer that finds the receiver of the body closed. -/
def bodyReceiverClosed : HttpBridgeError := .transport "HTTP request body receiver closed"

/-- What `try_send` answers. -/
inductive TrySend
  | ok | full | closed

def responseTooLargeError (limit : ℕ) : HttpBridgeError :=
  .responseTooLarge ("HTTP response body exceeded " ++ toString limit ++ " bytes")

/-- `append_response_body`. -/
def appendResponseBody (body chunk : Bytes) (limit : ℕ) : Except HttpBridgeError Bytes :=
  if limit < body.length + chunk.length then .error (responseTooLargeError limit)
  else .ok (body ++ chunk)

/-- What the caller makes of a response event: the body it has then, or (`.error`) its result. -/
def receiveEvent (limit : ℕ) (body : Bytes) :
    HttpBridgeResponseEvent → Except (Except HttpBridgeError HttpResponse) Bytes
  | .body chunk => (appendResponseBody body chunk limit).mapError .error
  | .complete (.ok response) =>
    match appendResponseBody body response.body limit with
    | .ok body => .error (.ok { response with body := body })
    | .error error => .error (.error error)
  | .complete (.error error) => .error (.error error)

/-- Who has the request, and with it the receiver of the body and the sender of the response. -/
inductive Holder
  | caller | transport | nobody
  deriving DecidableEq

/-- The three places of a loop that polls. -/
inductive PollPoint
  | cancelled | deadline | channel
  deriving DecidableEq

/-- Where the caller stands: handing the request to the dispatcher, waiting for the response, or
past its return. -/
inductive Caller
  | submit (point : PollPoint)
  | receive (point : PollPoint)
  | returned (result : Except HttpBridgeError HttpResponse)

/-- A request on its way. -/
structure Exchange where
  caller : Caller
  holder : Holder
  body : List HttpRequestBodyEvent
  responses : List HttpBridgeResponseEvent
  responseBody : Bytes

namespace Exchange

/-- The exchange before its first step. -/
def start : Exchange where
  caller := .submit .cancelled
  holder := .caller
  body := []
  responses := []
  responseBody := []

/-- The result of the caller, if it has returned. -/
def result? (x : Exchange) : Option (Except HttpBridgeError HttpResponse) :=
  match x.caller with
  | .returned result => some result
  | _ => none

/-- The caller returns: its receiver is dropped, and the request too if nobody has taken it. -/
def finish (x : Exchange) (result : Except HttpBridgeError HttpResponse) : Exchange where
  caller := .returned result
  holder := if x.holder = .caller then .nobody else x.holder
  body := if x.holder = .caller then [] else x.body
  responses := []
  responseBody := x.responseBody

/-- `try_recv` on the response channel and what the caller does with the answer. -/
def receiveResponse (limit : ℕ) (x : Exchange) : Exchange :=
  match x.responses with
  | event :: rest =>
    match receiveEvent limit x.responseBody event with
    | .ok body =>
      { x with caller := .receive .cancelled, responses := rest, responseBody := body }
    | .error result => x.finish result
  | [] =>
    if x.holder = .nobody then x.finish (.error (.transport "HTTP response channel closed"))
    else { x with caller := .receive .cancelled }

/-- One step of the caller. `room` is the answer of the dispatcher's channel. -/
def poll (limits : HttpRequestLimits) (cancelled expired : Bool) (room : TrySend)
    (x : Exchange) : Exchange :=
  match x.caller with
  | .submit .cancelled =>
    if cancelled then x.finish (.error (.cancelled "HTTP request cancelled"))
    else { x with caller := .submit .deadline }
  | .submit .deadline =>
    if expired then x.finish (.error (.timeout "HTTP request exceeded wall time limit"))
    else { x with caller := .submit .channel }
  | .submit .channel =>
    match room with
    | .ok => { x with caller := .receive .cancelled, holder := .transport }
    | .full => { x with caller := .submit .cancelled }
    | .closed => x.finish (.error (.gatewayUnavailable "HTTP bridge dispatcher is closed"))
  | .receive .cancelled =>
    if cancelled then x.finish (.error (.cancelled "HTTP request cancelled"))
    else { x with caller := .receive .deadline }
  | .receive .deadline =>
    if expired then x.finish (.error (.timeout "HTTP request exceeded wall time limit"))
    else { x with caller := .receive .channel }
  | .receive .channel => x.receiveResponse limits.responseBodyBytes
  | .returned _ => x

end Exchange

/-- What the code that answers a request can do with it. -/
inductive TransportOp
  | read
  | respond (event : HttpBridgeResponseEvent)
  | release

namespace Exchange

/-- An operation of the transport, or `none` where it has to wait or has no request. A body that is
read after its writer is gone gives the transport an error, as a response does that nobody
receives. -/
def transport (writerGone : Bool) (op : TransportOp) (x : Exchange) : Option Exchange :=
  if x.holder = .transport then
    match op with
    | .read =>
      match x.body with
      | _ :: rest => some { x with body := rest }
      | [] => if writerGone then some x else none
    | .respond event =>
      if x.result?.isSome then some x
      else if x.responses.length < httpResponseEventQueueSize then
        some { x with responses := x.responses ++ [event] }
      else none
    | .release => some { x with holder := .nobody, body := [] }
  else none

/-- `try_send` on the body channel. -/
def trySendBody (event : HttpRequestBodyEvent) (x : Exchange) : TrySend × Exchange :=
  if x.holder = .nobody then (.closed, x)
  else if x.body.length < httpRequestBodyEventQueueSize then
    (.ok, { x with body := x.body ++ [event] })
  else (.full, x)

end Exchange

/-- The two places of a loop that sends. -/
inductive SendPoint
  | cancelled | channel
  deriving DecidableEq

/-- Where a loop that sends goes on, or what it returns. -/
inductive Sending
  | again (point : SendPoint)
  | done (result : Except HttpBridgeError Unit)

/-- One step of `HttpRequestBodyWriter::send_event_blocking`, or of `send_event_async`. -/
def HttpRequestBodyWriter.sendEvent (cancelled : Bool) (event : HttpRequestBodyEvent)
    (x : Exchange) : SendPoint → Sending × Exchange
  | .cancelled =>
    if cancelled then (.done (.error (.cancelled "HTTP request cancelled")), x)
    else (.again .channel, x)
  | .channel =>
    match x.trySendBody event with
    | (.ok, x) => (.done (.ok ()), x)
    | (.full, x) => (.again .cancelled, x)
    | (.closed, x) => (.done (.error (.transport "HTTP request body receiver closed")), x)

namespace Exchange

variable {limits : HttpRequestLimits} {cancelled expired : Bool} {room : TrySend} {x y : Exchange}

@[simp]
theorem result?_finish (x : Exchange) (result : Except HttpBridgeError HttpResponse) :
    (x.finish result).result? = some result := rfl

theorem result?_eq_some_iff {result : Except HttpBridgeError HttpResponse} :
    x.result? = some result ↔ x.caller = .returned result := by
  unfold result?
  cases x.caller with
  | submit | receive | returned => simp

theorem result?_congr (h : x.caller = y.caller) : x.result? = y.result? := by
  rw [result?, h, result?]

/-- The transport does not touch the caller. -/
theorem caller_transport {gone : Bool} {op : TransportOp} (h : x.transport gone op = some y) :
    y.caller = x.caller := by
  unfold transport at h
  split at h
  · split at h
    · split at h
      · obtain rfl := Option.some.inj h
        rfl
      · split at h
        · rw [Option.some.inj h]
        · cases h
    · split at h
      · rw [Option.some.inj h]
      split at h
      · obtain rfl := Option.some.inj h
        rfl
      · cases h
    · obtain rfl := Option.some.inj h
      rfl
  · cases h

/-- What a step of a caller that has not returned leaves behind. -/
inductive Polled (limit : ℕ) (x : Exchange) : Exchange → Prop
  | moved (caller : Caller) (h : ∀ result, caller ≠ .returned result)
      (hplaced : ∀ point, caller = .submit point → ∃ point, x.caller = .submit point) :
      Polled limit x { x with caller := caller }
  | accepted (point : PollPoint) (h : x.caller = .submit point) :
      Polled limit x { x with caller := .receive .cancelled, holder := .transport }
  | received (event : HttpBridgeResponseEvent) (rest : List HttpBridgeResponseEvent)
      (body : Bytes) (h : x.responses = event :: rest)
      (hevent : receiveEvent limit x.responseBody event = .ok body) :
      Polled limit x
        { x with caller := .receive .cancelled, responses := rest, responseBody := body }
  | answered (event : HttpBridgeResponseEvent) (rest : List HttpBridgeResponseEvent)
      (result : Except HttpBridgeError HttpResponse) (h : x.responses = event :: rest)
      (hevent : receiveEvent limit x.responseBody event = .error result) :
      Polled limit x (x.finish result)
  | failed (error : HttpBridgeError) (h : error ≠ bodyReceiverClosed) :
      Polled limit x (x.finish (.error error))

theorem polled_receiveResponse (limit : ℕ) (x : Exchange) :
    x.Polled limit (x.receiveResponse limit) := by
  unfold receiveResponse
  split
  next event rest hresponses =>
    split
    next body hevent => exact .received event rest body hresponses hevent
    next result hevent => exact .answered event rest result hresponses hevent
  next hresponses =>
    split
    · exact .failed _ (by decide)
    · exact .moved _ (by simp) (by simp)

theorem polled_poll (limits : HttpRequestLimits) (cancelled expired : Bool) (room : TrySend)
    {x : Exchange} (h : x.result? = none) :
    x.Polled limits.responseBodyBytes (x.poll limits cancelled expired room) := by
  unfold poll
  split
  next hcaller =>
    split
    · exact .failed _ (by decide)
    · exact .moved _ (by simp) fun _ _ => ⟨_, hcaller⟩
  next hcaller =>
    split
    · exact .failed _ (by decide)
    · exact .moved _ (by simp) fun _ _ => ⟨_, hcaller⟩
  next hcaller =>
    cases room with
    | ok => exact .accepted _ hcaller
    | full => exact .moved _ (by simp) fun _ _ => ⟨_, hcaller⟩
    | closed => exact .failed _ (by decide)
  · split
    · exact .failed _ (by decide)
    · exact .moved _ (by simp) (by simp)
  · split
    · exact .failed _ (by decide)
    · exact .moved _ (by simp) (by simp)
  · exact polled_receiveResponse _ x
  next result hcaller =>
    rw [result?_eq_some_iff.2 hcaller] at h
    cases h

variable (event : HttpRequestBodyEvent)

theorem trySendBody_cases (x : Exchange) :
    (x.trySendBody event = (.closed, x) ∧ x.holder = .nobody) ∨
    (x.trySendBody event = (.ok, { x with body := [event] }) ∧ x.holder ≠ .nobody ∧ x.body = []) ∨
    (x.trySendBody event = (.full, x) ∧ x.holder ≠ .nobody) := by
  unfold trySendBody httpRequestBodyEventQueueSize
  by_cases hholder : x.holder = .nobody
  · simp [hholder]
  · by_cases hbody : x.body = []
    · simp [hholder, hbody]
    · have : ¬ x.body.length < 1 := by simpa using hbody
      simp [hholder, this]

theorem trySendBody_of_room {x : Exchange} (hholder : x.holder = .transport) (hbody : x.body = []) :
    x.trySendBody event = (.ok, { x with body := [event] }) := by
  simp [trySendBody, hholder, hbody, httpRequestBodyEventQueueSize]

theorem trySendBody_of_nobody {x : Exchange} (hholder : x.holder = .nobody) :
    x.trySendBody event = (.closed, x) := by
  simp [trySendBody, hholder]

end Exchange

theorem HttpRequestBodyWriter.caller_sendEvent (cancelled : Bool) (event : HttpRequestBodyEvent)
    (x : Exchange) (point : SendPoint) :
    (sendEvent cancelled event x point).2.caller = x.caller := by
  cases point with
  | cancelled => cases cancelled <;> rfl
  | channel =>
    unfold sendEvent
    rcases x.trySendBody_cases event with ⟨h, -⟩ | ⟨h, -⟩ | ⟨h, -⟩ <;> rw [h]

end WasmHost

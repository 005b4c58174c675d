import Mathlib.Algebra.GroupWithZero.Nat
import WasmHost.Web.AppServer

/-!
# The JSON-RPC client

`BrowserCodexAppServerJsonRpcClient` of `app-server-transport.js`: requests that wait for the
response with their id, and waiters for notifications, on a socket.

The socket is the client's surroundings. It is told what is sent, which it or `JSON.stringify` may
refuse; that it is open is what its `readyState` says, whatever it does besides. A predicate is a
function of the notification that may throw. The listeners of a notification run before its waiters
are resolved and may call the client, so that such a frame is handled in two steps; everything else
runs to its end, or to the text of a value that has none.

* `RpcClient.react`: what the client does at an event.
-/

namespace WasmHost

open Tool

/-- A frame that is an object. -/
abbrev RpcMessage := List (JsText × JsValue)

/-- The errors of the client. -/
inductive RpcError
  /-- A `BrowserCodexAppServerTransportError`. -/
  | transport (code : String) (message : JsValue)
  /-- The one of a waiter for a method. -/
  | timedOut (method : JsValue)
  /-- The one of a response with an id. -/
  | unknownResponse (id : JsValue)
  /-- A `BrowserCodexAppServerJsonRpcError`. -/
  | rpc (error : JsValue)
  /-- Anything else that was thrown. -/
  | thrown (value : JsValue)

/-- How JavaScript makes a text of a value, which may throw: `String(value)`, and what a template
and the message of an `Error` do, which refuse symbols. -/
structure TextForms where
  string : JsValue → Except JsValue JsText
  template : JsValue → Except JsValue JsText

namespace RpcError

/-- `error?.message ?? String(error)`, up to the text: what it throws, if it does. Errors of the
client have a message. -/
def untold (texts : TextForms) : RpcError → Option JsValue
  | .thrown value =>
    match value.field "message", texts.string value with
    | .undefined, .error error | .null, .error error => some error
    | _, _ => none
  | _ => none

def closed : RpcError :=
  .transport "closed" (.string (js "browser app-server JSON-RPC client closed"))

def isClosed : RpcError :=
  .transport "closed" (.string (js "browser app-server JSON-RPC client is closed"))

def malformedFrame (message : String) : RpcError :=
  .transport "malformed_frame" (.string (js message))

def invalidRequest (message : String) : RpcError :=
  .transport "invalid_request" (.string (js message))

end RpcError

/-! ### Messages -/

/-- `id + 1` for a positive integer that is a number of JavaScript: the sum is rounded to a multiple
of two from 2^53 on, and ties go to the even quotient. -/
def addOne (id : ℕ) : ℕ :=
  if id < 2 ^ 53 then id + 1
  else if id < 2 ^ 54 ∧ id % 4 = 2 then id + 2
  else id

/-- A number that is an integer from 1. -/
def RpcClient.positiveInteger (value : JsValue) (message : String) : Except RpcError ℕ :=
  match value with
  | .number q => if q.den = 1 ∧ 0 < q.num then .ok q.num.toNat else .error (.invalidRequest message)
  | _ => .error (.invalidRequest message)

/-- `JSON.stringify` of an id where that is the text of a natural number, as of no other value. -/
def requestKey : JsValue → Option ℕ
  | .number q => if q.den = 1 ∧ 0 ≤ q.num then some q.num.toNat else none
  | _ => none

/-- The message of a call. -/
def jsonRpcMessage (method params : JsValue) (id : Option ℕ) : Except RpcError RpcMessage :=
  match method with
  | .string (unit :: units) =>
    .ok ([(js "jsonrpc", .string (js "2.0")), (js "method", .string (unit :: units))] ++
      (id.map fun id => (js "id", .number id)).toList ++
      match params with
      | .undefined => []
      | _ => [(js "params", params)])
  | _ => .error (.invalidRequest "JSON-RPC method must be a non-empty string")

/-- `method === other` for a method that may not be a text. -/
def sameMethod (method : JsValue) (other : JsText) : Bool :=
  match method with
  | .string text => text = other
  | _ => false

/-- The method of a message, if that is a text. -/
def methodOf (message : RpcMessage) : Option JsText :=
  match fieldOf message "method" with
  | .string method => some method
  | _ => none

/-- `Object.hasOwn(message, name)`. -/
def hasOwn (message : RpcMessage) (name : String) : Bool := (message.lookup (js name)).isSome

/-- The object that the data of a frame are. -/
def frameMessage (data : RawMessage) : Except RpcError RpcMessage :=
  match data with
  | .text none => .error (.malformedFrame "browser app-server emitted a malformed JSON frame")
  | .text (some (.object _ message)) | .value (.object _ message) => .ok message
  | _ => .error (.malformedFrame "browser app-server emitted a non-object frame")

/-! ### The client -/

/-- The predicate of a waiter, which may throw. -/
abbrev Predicate := RpcMessage → Except JsValue Bool

/-- An entry of `_notificationWaiters`, with the promise that it settles. -/
structure RpcWaiter where
  promise : ℕ
  method : JsValue
  predicate : Predicate
  /-- There is a timeout. -/
  timed : Bool

/-- The notification is of the method that is waited for and satisfies the predicate. -/
def satisfies (method : JsValue) (predicate : Predicate) (message : RpcMessage) :
    Except JsValue Bool :=
  match methodOf message with
  | some other => if sameMethod method other = true then predicate message else .ok false
  | none => .ok false

/-- The client. Promises are numbered in the order they are made in; the pending ones are kept under
the ids of their requests. -/
structure RpcClient where
  closed : Bool
  notifications : List RpcMessage
  pending : OrdMap ℕ ℕ
  promises : ℕ
  requestId : ℕ
  /-- The socket is in the state `OPEN`. -/
  socketOpen : Bool
  /-- The notifications whose listeners are running, the innermost first. -/
  telling : List RpcMessage
  waiters : List RpcWaiter

/-- What becomes of a promise. -/
inductive RpcOutcome
  | result (value : JsValue)
  | notification (message : RpcMessage)
  | rejected (error : RpcError)

/-- The events that the client emits. -/
inductive ClientSignal
  | error (error : RpcError)
  | notification (message : RpcMessage)
  | unmatchedResponse (message : RpcMessage)
  | close (code reason wasClean : JsValue)

/-- What the client does: the promises that it settles, the events that it emits, the messages that
it hands to the socket and what a call of it returns, which may be a promise. -/
structure Reaction where
  client : RpcClient
  settled : List (ℕ × RpcOutcome) := []
  emitted : List ClientSignal := []
  sent : List RpcMessage := []
  returned : Except RpcError (Option ℕ) := .ok none

/-- The options of a wait; `timed` says whether the timeout that applies is positive. -/
structure WaitOptions where
  predicate : Predicate
  replay : Bool
  timed : Bool

namespace RpcClient

/-- A client on a socket. -/
def new (initialRequestId : JsValue) (socketOpen : Bool) : Except RpcError RpcClient := do
  let requestId ← positiveInteger
    (match initialRequestId with | .undefined => .number 1 | _ => initialRequestId)
    "initialRequestId must be a positive integer"
  return {
    closed := !socketOpen
    notifications := []
    pending := OrdMap.empty
    promises := 0
    requestId
    socketOpen
    telling := []
    waiters := [] }

variable (c : RpcClient) (texts : TextForms)

def assertOpen : Except RpcError Unit :=
  if c.closed = true ∨ c.socketOpen = false then .error .isClosed else .ok ()

/-- `fault` is what `JSON.stringify` or the socket throws. -/
def request (method params : JsValue) (fault : Option JsValue) : Reaction :=
  match c.assertOpen with
  | .error error => { client := c, returned := .error error }
  | .ok () =>
    let id := c.requestId
    let counted := { c with requestId := addOne id }
    match jsonRpcMessage method params (some id) with
    | .error error => { client := counted, returned := .error error }
    | .ok message =>
      let promise := c.promises
      let registered :=
        { counted with promises := promise + 1, pending := c.pending.set id promise }
      match fault with
      | some error =>
        { client := { registered with pending := registered.pending.delete id }
          returned := .error (.thrown error) }
      | none => { client := registered, sent := [message], returned := .ok (some promise) }

/-- Sends a notification. -/
def notify (method params : JsValue) (fault : Option JsValue) : Reaction :=
  match c.assertOpen with
  | .error error => { client := c, returned := .error error }
  | .ok () =>
    match jsonRpcMessage method params none with
    | .error error => { client := c, returned := .error error }
    | .ok message =>
      match fault with
      | some error => { client := c, returned := .error (.thrown error) }
      | none => { client := c, sent := [message] }

/-- The notification that is there already; `find` ends at a predicate that throws. -/
def findExisting (method : JsValue) (options : WaitOptions) : Except JsValue (Option RpcMessage) :=
  if options.replay = true then
    c.notifications.findM? (satisfies method options.predicate)
  else .ok none

/-- Waits for a notification. -/
def waitForNotification (method : JsValue) (options : WaitOptions) : Reaction :=
  match c.findExisting method options with
  | .error error => { client := c, returned := .error (.thrown error) }
  | .ok (some existing) =>
    { client := { c with promises := c.promises + 1 }
      settled := [(c.promises, .notification existing)]
      returned := .ok (some c.promises) }
  | .ok none =>
    let waiter : RpcWaiter :=
      { promise := c.promises
        method
        predicate := options.predicate
        timed := options.timed }
    { client := { c with promises := c.promises + 1, waiters := c.waiters ++ [waiter] }
      returned := .ok (some c.promises) }

/-- The timeout of a waiter, which is cleared when the waiter goes. The message of its error is made
when the waiter has gone. -/
def timeout (promise : ℕ) : Reaction :=
  match c.waiters.find? (fun waiter => waiter.promise = promise ∧ waiter.timed = true) with
  | none => { client := c }
  | some waiter =>
    { client := { c with waiters := c.waiters.filter fun item => item.promise ≠ waiter.promise }
      settled :=
        if (texts.template waiter.method).isOk = true then
          [(waiter.promise, .rejected (.timedOut waiter.method))]
        else [] }

/-- The promises that are neither resolved nor rejected. -/
def openPromises : List ℕ := c.pending.values ++ c.waiters.map RpcWaiter.promise

/-- Rejects every open promise. -/
def rejectPending (error : RpcError) : Reaction where
  client := { c with pending := OrdMap.empty, waiters := [] }
  settled := c.openPromises.map fun promise => (promise, .rejected error)

/-- The socket is closed then. -/
def close : Reaction :=
  if c.closed = true then { client := c } else { c with closed := true }.rejectPending .closed

/-- What a response makes of the request with its id. -/
def responseOutcome (message : RpcMessage) : RpcOutcome :=
  match fieldOf message "error" with
  | .undefined => .result (fieldOf message "result")
  | error => .rejected (.rpc error)

/-- The `BrowserCodexAppServerJsonRpcError` of a response can be made, if it needs one: its message
is `error?.message`, or a text of its own. -/
def responseReadable (message : RpcMessage) : Bool :=
  match fieldOf message "error" with
  | .undefined => true
  | error =>
    match error.field "message" with
    | .undefined | .null => true
    | text => (texts.template text).isOk

/-- The request with the id of a response is no longer pending when the error is made. -/
def handleResponse (message : RpcMessage) : Reaction :=
  let id := fieldOf message "id"
  match (requestKey id).bind fun key => (c.pending.get key).map fun promise => (key, promise) with
  | none =>
    { client := c
      emitted := .unmatchedResponse message ::
        if (texts.string id).isOk = true then [.error (.unknownResponse id)] else [] }
  | some (key, promise) =>
    { client := { c with pending := c.pending.delete key }
      settled :=
        if responseReadable texts message = true then [(promise, responseOutcome message)] else [] }

/-- A notification is told to the listeners, after which `listenersReturn` goes on. -/
def handleSocketMessage (data : RawMessage) : Reaction :=
  match frameMessage data with
  | .error error => { client := c, emitted := [.error error] }
  | .ok message =>
    if hasOwn message "id" = true then c.handleResponse texts message
    else if (methodOf message).isSome = true then
      { client := { c with
          notifications := c.notifications ++ [message]
          telling := message :: c.telling }
        emitted := [.notification message] }
    else
      { client := c
        emitted := [.error (.malformedFrame "browser app-server emitted an unknown frame")] }

/-- The waiters that a notification resolves; `filter` ends at a predicate that throws. -/
def matchedWaiters (message : RpcMessage) : List RpcWaiter → Except JsValue (List RpcWaiter)
  | [] => .ok []
  | waiter :: waiters => do
    let satisfied ← satisfies waiter.method waiter.predicate message
    let matched ← matchedWaiters message waiters
    return if satisfied = true then waiter :: matched else matched

/-- Resolves who waits for a notification. -/
def resolveNotificationWaiters (message : RpcMessage) : Reaction :=
  match matchedWaiters message c.waiters with
  | .error _ => { client := c }
  | .ok matched =>
    { client := { c with
        waiters := c.waiters.filter fun waiter =>
          waiter.promise ∉ matched.map RpcWaiter.promise }
      settled := matched.map fun waiter => (waiter.promise, .notification message) }

/-- The listeners of the notification that is told last are done. -/
def listenersReturn : Reaction :=
  match c.telling with
  | [] => { client := c }
  | message :: telling => { c with telling }.resolveNotificationWaiters message

def handleSocketClose (code reason wasClean : JsValue) : Reaction :=
  { { c with closed := true }.rejectPending .closed with emitted := [.close code reason wasClean] }

/-- `error` and `message` are those of the event; a message may have no text. -/
def socketError (error message : JsValue) : Option RpcError :=
  match error with
  | .undefined | .null =>
    let text := message.orElse (.string (js "browser app-server transport error"))
    if (texts.template text).isOk = true then some (.transport "transport_error" text) else none
  | _ => some (.thrown error)

def handleSocketError (error message : JsValue) : Reaction :=
  match socketError texts error message with
  | none => { client := c }
  | some error =>
    { c.rejectPending error with
      emitted := if (error.untold texts).isNone = true then [.error error] else [] }

end RpcClient

/-- What happens to a client: calls of it, its timeouts, and what its socket does. -/
inductive ClientEvent
  | request (method params : JsValue) (fault : Option JsValue)
  | notify (method params : JsValue) (fault : Option JsValue)
  | wait (method : JsValue) (options : WaitOptions)
  | close
  | timeout (promise : ℕ)
  | frame (data : RawMessage)
  | listenersReturn
  | socketState (isOpen : Bool)
  | socketClose (code reason wasClean : JsValue)
  | socketError (error message : JsValue)

/-- What an event does. -/
def RpcClient.react (c : RpcClient) (texts : TextForms) : ClientEvent → Reaction
  | .request method params fault => c.request method params fault
  | .notify method params fault => c.notify method params fault
  | .wait method options => c.waitForNotification method options
  | .close => c.close
  | .timeout promise => c.timeout texts promise
  | .frame data => c.handleSocketMessage texts data
  | .listenersReturn => c.listenersReturn
  | .socketState isOpen => { client := { c with socketOpen := isOpen } }
  | .socketClose code reason wasClean => c.handleSocketClose code reason wasClean
  | .socketError error message => c.handleSocketError texts error message

end WasmHost

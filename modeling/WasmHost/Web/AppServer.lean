import Mathlib.Data.PNat.Defs
import WasmHost.Lib.OrdMap
import WasmHost.Tool.Json

/-!
# The app server

`BrowserCodexAppServerRuntime` of `app-server.js`: a JSON-RPC server with device logins, threads and
turns, kept in memory. A turn is completed at once by a model that is a callback of the embedder, or
stays in progress until it is interrupted.

A message is data without cycles; a text is given by what `JSON.parse` makes of it. Times are whole
milliseconds.

* `AppServer.handleMessage`: the server after a message, and what it sends.
-/

namespace WasmHost

open Tool

/-- A `BrowserCodexAppServerError`. The data that every error has are left out of `data`. -/
structure AppServerError where
  code : ℤ
  kind : String
  message : JsText
  data : List (String × JsValue)

def invalidParams (message : JsText) : AppServerError := ⟨-32602, "invalid_request", message, []⟩

/-! ### Records -/

/-- The states of a login. -/
inductive ServerLoginStatus
  | pending | canceled
  deriving DecidableEq

/-- A login of the server. -/
structure ServerLogin where
  loginId : JsText
  status : ServerLoginStatus
  userCode : JsText
  verificationUrl : JsText

/-- A thread of the server. -/
structure ServerThread where
  id : JsText
  sessionId : JsText
  createdAt : ℕ
  updatedAt : ℕ

/-- A message of the agent. -/
structure TurnItem where
  id : JsText
  text : JsText

/-- The states of a turn. -/
inductive TurnStatus
  | inProgress | completed | interrupted
  deriving DecidableEq

/-- A turn as clients see it. -/
structure PublicTurn where
  completedAt : Option ℕ
  durationMs : Option ℕ
  id : JsText
  items : List TurnItem
  startedAt : ℕ
  status : TurnStatus

/-- A turn as the server keeps it. -/
structure ServerTurn extends PublicTurn where
  threadId : JsText

def publicTurn (turn : ServerTurn) : PublicTurn := turn.toPublicTurn

/-! ### What the server sends -/

/-- The notifications of the server. -/
inductive ServerNotification
  | loginCompleted (loginId : JsText)
  | threadStarted (thread : ServerThread)
  | turnStarted (threadId : JsText) (turn : PublicTurn)
  | itemCompleted (completedAtMs : ℕ) (item : TurnItem) (threadId turnId : JsText)
  | turnCompleted (threadId : JsText) (turn : PublicTurn)

/-- The method under which a notification is sent. -/
def ServerNotification.method : ServerNotification → JsText
  | loginCompleted _ => js "account/login/completed"
  | threadStarted _ => js "thread/started"
  | turnStarted _ _ => js "turn/started"
  | itemCompleted _ _ _ _ => js "item/completed"
  | turnCompleted _ _ => js "turn/completed"

/-- The results of requests. -/
inductive ServerResult
  | initialized (maxNotificationsPerTurn : ℕ)
  | account (account : JsValue) (requiresOpenaiAuth : Bool)
  | login (loginId userCode verificationUrl : JsText)
  | cancelled (found : Bool)
  | thread (thread : ServerThread)
  | turn (turn : PublicTurn)
  | interrupted

/-- A frame; `failed` is the notification of an error. -/
inductive ServerFrame
  | result (id : JsValue) (result : ServerResult)
  | error (id : JsValue) (error : AppServerError)
  | notification (notification : ServerNotification)
  | failed (error : AppServerError)

/-- The answer to a request. -/
structure ServerReply where
  notifications : List ServerNotification
  result : ServerResult

/-! ### Requests -/

/-- The methods that the server knows. -/
inductive ServerMethod
  | initializeClient | accountRead | loginStart | loginCancel | threadStart | turnStart |
    turnInterrupt
  deriving DecidableEq

/-- The name of a method. -/
def ServerMethod.text : ServerMethod → JsText
  | initializeClient => js "initialize"
  | accountRead => js "account/read"
  | loginStart => js "account/login/start"
  | loginCancel => js "account/login/cancel"
  | threadStart => js "thread/start"
  | turnStart => js "turn/start"
  | turnInterrupt => js "turn/interrupt"

/-- The methods that are answered. -/
def supportedMethods : List ServerMethod :=
  [.initializeClient, .accountRead, .loginStart, .loginCancel, .threadStart, .turnStart,
    .turnInterrupt]

/-- The method of a name. -/
def ServerMethod.ofText? (method : JsText) : Option ServerMethod :=
  supportedMethods.find? (·.text = method)

/-- The error of a method that is not known. -/
def unsupportedMethod (method : JsText) : AppServerError where
  code := -32601
  kind := "unsupported_capability"
  message := js "unsupported browser app-server method: " ++ method
  data := [("method", .string method),
    ("supportedMethods", .array .plain (supportedMethods.map fun m => .string m.text))]

/-- What the callback is told about the turn. -/
structure ModelContext where
  inputText : JsText
  thread : Option ServerThread
  turn : ServerTurn

/-- A text, by what it is parsed to, or a value. -/
inductive RawMessage
  | text (parsed : Option JsValue)
  | value (value : JsValue)

/-- A message with what the runtime gets from outside while it is handled: two readings of the clock
and the answer of the model, which may throw. -/
structure ServerCall where
  message : RawMessage
  now : ℕ
  later : ℕ
  modelResponseText : ModelContext → Except AppServerError JsText

/-- The object that a message is. -/
def parseJsonRpcMessage (rawMessage : RawMessage) :
    Except AppServerError (List (JsText × JsValue)) :=
  let object : JsValue → Except AppServerError (List (JsText × JsValue))
    | .object _ fields => .ok fields
    | _ => .error ⟨-32600, "invalid_request", js "JSON-RPC message must be an object", []⟩
  match rawMessage with
  | .text none => .error ⟨-32700, "parse_error", js "invalid JSON-RPC message", []⟩
  | .text (some value) | .value value => object value

/-- The field of an object, which is undefined if it has none. -/
def fieldOf (fields : List (JsText × JsValue)) (name : String) : JsValue :=
  (fields.lookup (js name)).getD .undefined

/-- The value may be an id. -/
def validJsonRpcId : JsValue → Bool
  | .undefined | .null | .string _ | .number _ => true
  | _ => false

/-- The method of a message whose envelope is valid. -/
def validateJsonRpcEnvelope (fields : List (JsText × JsValue)) : Except AppServerError JsText :=
  if ¬(fieldOf fields "jsonrpc").IsText "2.0" then
    .error ⟨-32600, "invalid_request", js "JSON-RPC version must be 2.0", []⟩
  else
    match fieldOf fields "method" with
    | .string (unit :: units) =>
      if validJsonRpcId (fieldOf fields "id") = true then .ok (unit :: units)
      else .error
        ⟨-32600, "invalid_request", js "JSON-RPC id must be a string, number, or null", []⟩
    | _ => .error ⟨-32600, "invalid_request", js "JSON-RPC method is required", []⟩

/-- The fields of `params`, which default to an empty object. -/
def objectParam (params : JsValue) (message : String) :
    Except AppServerError (List (JsText × JsValue)) :=
  match params with
  | .undefined => .ok []
  | .object _ fields => .ok fields
  | _ => .error (invalidParams (js message))

/-- A text that is not empty. -/
def AppServer.nonEmptyString (value : JsValue) (message : String) : Except AppServerError JsText :=
  match value with
  | .string (unit :: units) => .ok (unit :: units)
  | _ => .error (invalidParams (js message))

/-- The texts of the text items. -/
def inputText (input : List JsValue) : JsText :=
  (js "\n\n").intercalate <| input.filterMap fun item =>
    if (item.field "type").IsText "text" then
      match item.field "text" with
      | .string text => some text
      | _ => none
    else none

/-! ### The runtime -/

/-- The state of the server. -/
structure AppServer where
  account : JsValue
  autoCompleteTurns : Bool
  clientInfo : JsValue
  initialized : Bool
  loginSequence : ℕ
  logins : OrdMap JsText ServerLogin
  maxNotificationsPerTurn : ℕ+
  notificationOptOut : List JsText
  threadSequence : ℕ
  threads : OrdMap JsText ServerThread
  turnSequence : ℕ
  turns : OrdMap JsText ServerTurn
  verificationUrl : JsText

/-- The decimal digits of a number. -/
def digits (n : ℕ) : JsText := (Nat.toDigits 10 n).map fun c => UInt16.ofNat c.toNat

def paddedDigits (n : ℕ) : JsText :=
  List.replicate (4 - (digits n).length) (UInt16.ofNat '0'.toNat) ++ digits n

def loginIdOf (n : ℕ) : JsText := js "browser-login-" ++ digits n

def threadIdOf (n : ℕ) : JsText := js "browser-thread-" ++ digits n

def turnIdOf (n : ℕ) : JsText := js "browser-turn-" ++ digits n

namespace AppServer

/-- A runtime with its options. -/
def new (account : JsValue) (autoCompleteTurns : Bool) (maxNotificationsPerTurn : ℕ+)
    (verificationUrl : JsText) : AppServer where
  account
  autoCompleteTurns
  clientInfo := .null
  initialized := false
  loginSequence := 0
  logins := OrdMap.empty
  maxNotificationsPerTurn
  notificationOptOut := []
  threadSequence := 0
  threads := OrdMap.empty
  turnSequence := 0
  turns := OrdMap.empty
  verificationUrl

variable (s : AppServer)

/-- Answers `initialize`. -/
def initializeClient (params : JsValue) : AppServer × Except AppServerError ServerReply :=
  match objectParam params "initialize params must be an object" with
  | .error error => (s, .error error)
  | .ok fields =>
    let optOut := (fieldOf fields "optOutNotificationMethods").orElse
      (((fieldOf fields "capabilities").field "optOutNotificationMethods").orElse
        (.array .plain []))
    let methods := match optOut with
      | .array _ items => items.filterMap fun
        | .string method => some method
        | _ => none
      | _ => []
    ({ s with
        clientInfo := (fieldOf fields "clientInfo").orElse .null
        notificationOptOut := methods },
      .ok ⟨[], .initialized s.maxNotificationsPerTurn⟩)

/-- Answers `account/read`. -/
def readAccount : ServerResult :=
  .account s.account (match s.account with | .undefined | .null => true | _ => false)

/-- Answers `account/login/start`. -/
def startLogin (params : JsValue) : AppServer × Except AppServerError ServerReply :=
  match objectParam params "account/login/start params must be an object" with
  | .error error => (s, .error error)
  | .ok fields =>
    if ¬(fieldOf fields "type").IsText "chatgptDeviceCode" then
      (s, .error (invalidParams
        (js "account/login/start only supports chatgptDeviceCode in the browser fixture")))
    else
      let n := s.loginSequence + 1
      let login : ServerLogin :=
        { loginId := loginIdOf n
          status := .pending
          userCode := js "BROWSER-" ++ paddedDigits n
          verificationUrl := s.verificationUrl }
      ({ s with loginSequence := n, logins := s.logins.set login.loginId login },
        .ok ⟨[], .login login.loginId login.userCode login.verificationUrl⟩)

/-- The id in the parameters of a cancel. -/
def cancelledLoginId (params : JsValue) : Except AppServerError JsText := do
  let fields ← objectParam params "account/login/cancel params must be an object"
  nonEmptyString (fieldOf fields "loginId") "loginId is required"

/-- Answers `account/login/cancel`. -/
def cancelLogin (params : JsValue) : AppServer × Except AppServerError ServerReply :=
  match cancelledLoginId params with
  | .error error => (s, .error error)
  | .ok loginId =>
    match s.logins.get loginId with
    | none => (s, .ok ⟨[], .cancelled false⟩)
    | some login =>
      ({ s with logins := s.logins.set loginId { login with status := .canceled } },
        .ok ⟨[.loginCompleted loginId], .cancelled true⟩)

/-- Answers `thread/start`. -/
def startThread (now : ℕ) (params : JsValue) : AppServer × Except AppServerError ServerReply :=
  match objectParam params "thread/start params must be an object" with
  | .error error => (s, .error error)
  | .ok _ =>
    let n := s.threadSequence + 1
    let thread : ServerThread :=
      { id := threadIdOf n
        sessionId := js "browser-session-" ++ digits n
        createdAt := now
        updatedAt := now }
    ({ s with threadSequence := n, threads := s.threads.set thread.id thread },
      .ok ⟨[.threadStarted thread], .thread thread⟩)

/-! ### Turns -/

/-- The thread and the input of a new turn. -/
def turnStartParams (params : JsValue) : Except AppServerError (JsText × List JsValue) := do
  let fields ← objectParam params "turn/start params must be an object"
  let threadId ← nonEmptyString (fieldOf fields "threadId") "threadId is required"
  if s.threads.has threadId = false then
    .error (invalidParams (js "unknown threadId: " ++ threadId))
  else
    match fieldOf fields "input" with
    | .array _ input => return (threadId, input)
    | _ => .error (invalidParams (js "turn/start input must be an array"))

/-- The error behind the last turn that may be started. -/
def turnLimitExceeded : AppServerError where
  code := -32001
  kind := "resource_limit"
  message := js "browser app-server turn notification limit exceeded"
  data := [("limit", .number s.maxNotificationsPerTurn), ("method", .string (js "turn/start"))]

/-- The notifications of a turn that is completed at once. -/
def autoCompleteTurnNotificationCount : ℕ := 3

/-- The item of a turn that is completed. -/
def completionItem (call : ServerCall) (turn : ServerTurn) (input : List JsValue) :
    Except AppServerError TurnItem := do
  let text ← call.modelResponseText ⟨inputText input, s.threads.get turn.threadId, turn⟩
  if autoCompleteTurnNotificationCount > s.maxNotificationsPerTurn then .error s.turnLimitExceeded
  else
    return {
      id := js "browser-item-" ++ turn.id.drop (js "browser-turn-").length
      text }

/-- Completes a turn in the call that starts it. -/
def completedTurnNotifications (call : ServerCall) (turn : ServerTurn) (input : List JsValue) :
    AppServer × Except AppServerError (List ServerNotification) :=
  match s.completionItem call turn input with
  | .error error => (s, .error error)
  | .ok item =>
    let completed : ServerTurn :=
      { turn with
        completedAt := some call.later
        durationMs := some (call.later - turn.startedAt)
        items := [item]
        status := .completed }
    ({ s with turns := s.turns.set turn.id completed },
      .ok [.itemCompleted call.later item turn.threadId turn.id,
        .turnCompleted turn.threadId (publicTurn completed)])

/-- A new turn, when its number has been taken. -/
def newTurn (now : ℕ) (threadId : JsText) : ServerTurn where
  completedAt := none
  durationMs := none
  id := turnIdOf s.turnSequence
  items := []
  startedAt := now
  status := .inProgress
  threadId

/-- The server with one more turn. -/
def addTurn (now : ℕ) (threadId : JsText) : AppServer × ServerTurn :=
  let numbered := { s with turnSequence := s.turnSequence + 1 }
  let turn := numbered.newTurn now threadId
  ({ numbered with turns := s.turns.set turn.id turn }, turn)

/-- Answers `turn/start`. -/
def startTurn (call : ServerCall) (params : JsValue) :
    AppServer × Except AppServerError ServerReply :=
  match s.turnStartParams params with
  | .error error => (s, .error error)
  | .ok (threadId, input) =>
    match s.addTurn call.now threadId with
    | (added, turn) =>
      let started := ServerNotification.turnStarted threadId (publicTurn turn)
      if s.autoCompleteTurns = false then (added, .ok ⟨[started], .turn (publicTurn turn)⟩)
      else
        match added.completedTurnNotifications call turn input with
        | (failed, .error error) => (failed, .error error)
        | (completed, .ok notifications) =>
          (completed, .ok ⟨started :: notifications, .turn (publicTurn turn)⟩)

/-- The turn that an interrupt is about. -/
def interruptedTurn (params : JsValue) : Except AppServerError (JsText × ServerTurn) := do
  let fields ← objectParam params "turn/interrupt params must be an object"
  let threadId ← nonEmptyString (fieldOf fields "threadId") "threadId is required"
  let turnId ← nonEmptyString (fieldOf fields "turnId") "turnId is required"
  match s.turns.get turnId with
  | none => .error (invalidParams (js "unknown turnId: " ++ turnId))
  | some turn =>
    if turn.threadId ≠ threadId then .error (invalidParams (js "unknown turnId: " ++ turnId))
    else if turn.status ≠ .inProgress then
      .error (invalidParams (js "turn is not running: " ++ turnId))
    else return (turnId, turn)

/-- Answers `turn/interrupt`. -/
def interruptTurn (now : ℕ) (params : JsValue) : AppServer × Except AppServerError ServerReply :=
  match s.interruptedTurn params with
  | .error error => (s, .error error)
  | .ok (turnId, turn) =>
    let interrupted : ServerTurn :=
      { turn with
        completedAt := some now
        durationMs := some (now - turn.startedAt)
        status := .interrupted }
    ({ s with turns := s.turns.set turnId interrupted },
      .ok ⟨[.turnCompleted turn.threadId (publicTurn interrupted)], .interrupted⟩)

/-! ### Messages -/

/-- Answers a request. -/
def handleRequest (call : ServerCall) (method : JsText) (params : JsValue) :
    AppServer × Except AppServerError ServerReply :=
  match ServerMethod.ofText? method with
  | some .initializeClient => s.initializeClient params
  | some .accountRead => (s, .ok ⟨[], s.readAccount⟩)
  | some .loginStart => s.startLogin params
  | some .loginCancel => s.cancelLogin params
  | some .threadStart => s.startThread call.now params
  | some .turnStart => s.startTurn call params
  | some .turnInterrupt => s.interruptTurn call.now params
  | none => (s, .error (unsupportedMethod method))

/-- Takes a notification. -/
def handleNotification (method : JsText) : AppServer × List ServerFrame :=
  if method = js "initialized" then ({ s with initialized := true }, [])
  else (s, [.failed (unsupportedMethod method)])

def filterNotifications (notifications : List ServerNotification) : List ServerNotification :=
  notifications.filter fun notification => notification.method ∉ s.notificationOptOut

/-- The answer to a request. -/
def respond (id : JsValue) :
    AppServer × Except AppServerError ServerReply → AppServer × List ServerFrame
  | (failed, .error error) => (failed, [.error id error])
  | (handled, .ok reply) =>
    (handled, .result id reply.result ::
      (handled.filterNotifications reply.notifications).map .notification)

/-- The frames that answer a message. -/
def handleMessage (call : ServerCall) : AppServer × List ServerFrame :=
  match parseJsonRpcMessage call.message with
  | .error error => (s, [.error .null error])
  | .ok fields =>
    match fieldOf fields "id", validateJsonRpcEnvelope fields with
    | .undefined, .error error => (s, [.failed error])
    | .undefined, .ok method => s.handleNotification method
    | id, .error error => (s, [.error id error])
    | id, .ok method => respond id (s.handleRequest call method (fieldOf fields "params"))

end AppServer

end WasmHost

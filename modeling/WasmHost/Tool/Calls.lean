import WasmHost.Tool.Results

/-!
# Calls of tools

`callTool` of a registry: what it settles with at once, and otherwise the call in flight, which the
caller may abort, whose timer may fire, and which ends when the handler of the tool has settled,
with a value or with anything that can be thrown.
-/

namespace WasmHost

namespace Tool

/-! ### Failures -/

/-- What `failureResult` reads of an error. -/
structure ErrorFields where
  kind : JsValue
  code : JsValue
  message : JsValue
  stage : JsValue

/-- The fields of an error of the protocol's own. -/
def ErrorFields.ofError (e : ResultError) : ErrorFields where
  kind := .string e.kind.1
  code := .string e.kind.1
  message := .string e.message.1
  stage := (e.stage.map fun stage => .string stage.1).getD .undefined

/-- Bounds with room for an error. -/
def failureResultBounds (bounds : Bounds) : Bounds where
  maxArgumentBytes := bounds.maxArgumentBytes
  maxContentItems := max bounds.maxContentItems 1
  maxItemBytes := max bounds.maxItemBytes defaultBounds.maxItemBytes
  maxResultBytes := max bounds.maxResultBytes defaultBounds.maxResultBytes
  timeoutMs := bounds.timeoutMs

/-- A field of an object that is there unless it is undefined. -/
def definedField (name : String) (value : JsValue) : List (JsText × JsValue) :=
  match value with
  | .undefined => []
  | _ => [(js name, value)]

def setFlag (name : String) (flag : Bool) : List (JsText × JsValue) :=
  if flag then [(js name, .boolean true)] else []

/-- The object that is handed to the normalizer for an error. -/
def failureObject (error : ErrorFields) (callId : NonEmptyText) (cancelled timedOut : Bool) :
    JsValue :=
  .object .plain ([(js "callId", .string callId.1),
    (js "contentItems", .array .plain
      [.object .plain [(js "type", .string (js "text")), (js "text", error.message)]]),
    (js "error", .object .plain ([
        (js "kind", error.kind.orElse (error.code.orElse (.string (js "tool_failed")))),
        (js "message", error.message)] ++ definedField "stage" error.stage)),
    (js "success", .boolean false)] ++ setFlag "cancelled" cancelled ++ setFlag "timedOut" timedOut)

/-- The result of a call that failed. -/
def failureResult (numeral : ℚ → JsText) (error : ErrorFields) (bounds : Bounds)
    (callId : NonEmptyText) (cancelled timedOut : Bool) : Except ShapeError ToolResult :=
  normalizeToolResult numeral (failureResultBounds bounds) (.string callId.1)
    (failureObject error callId cancelled timedOut)

/-! ### Errors -/

def ShapeError.toResultError (e : ShapeError) : ResultError :=
  ⟨e.kind.text, e.message, some e.stage.text⟩

/-- `protocolError(kind, message, "invocation")`. -/
def invocationError (kind message : NonEmptyText) : ResultError :=
  ⟨kind, message, some Stage.invocation.text⟩

def cancelledError : ResultError := invocationError (.of "cancelled") (.of "tool call cancelled")

def timeoutError : ResultError := invocationError (.of "timeout") (.of "tool call timed out")

def toolFailed : ResultError := invocationError (.of "tool_failed") (.of "browser tool failed")

/-- What a handler may throw: a `BrowserToolProtocolError`, whose fields may have been set to
anything, or any other value, of which only the name is asked. -/
inductive Thrown
  | protocolError (name : JsValue) (fields : ErrorFields) (safe : Bool)
  | other (name : JsValue)

/-- `error?.name`. -/
def Thrown.name : Thrown → JsValue
  | protocolError name _ _ => name
  | other name => name

def ShapeError.toThrown (e : ShapeError) : Thrown :=
  .protocolError (.string (js "BrowserToolProtocolError")) (.ofError e.toResultError) true

def classifyCallError (error : Thrown) (aborted timedOut : Bool) : ErrorFields :=
  if timedOut ∨ error.name.IsText "TimeoutError" then .ofError timeoutError
  else if aborted ∨ error.name.IsText "AbortError" then .ofError cancelledError
  else
    match error with
    | .protocolError _ fields true => fields
    | _ => .ofError toolFailed

/-! ### The registry -/

/-- The tools that are registered, by key, with the bounds of their descriptors. -/
structure Registry where
  defaultBounds : Bounds
  entries : List (JsText × PartialBounds)

/-- The key of a tool. -/
def toolKey (call : ToolCall) : JsText :=
  (call.nameSpace.map Subtype.val).getD [] ++ 0 :: call.tool.1

/-- The name of a tool. -/
def formatToolName (call : ToolCall) : JsText :=
  match call.nameSpace with
  | some nameSpace => nameSpace.1 ++ js "." ++ call.tool.1
  | none => call.tool.1

/-- The error of a tool that is not known. -/
def toolNotFound (call : ToolCall) : ResultError :=
  invocationError (.of "tool_not_found")
    ((NonEmptyText.of "browser tool not found: ").append (formatToolName call))

/-- The error of arguments beyond the bound. -/
def argumentsTooLarge (numeral : ℚ → JsText) (bounds : Bounds) : ResultError :=
  invocationError (.of "arguments_too_large")
    (exceeded numeral "arguments" bounds.maxArgumentBytes " bytes")

/-! ### Calls in flight -/

/-- The field `signal` of a request. -/
inductive SignalValue
  | absent
  | signal (aborted : Bool)
  | invalid

/-- The signal of a call. -/
def optionalAbortSignal : SignalValue → Except ShapeError (Option Bool)
  | .absent => .ok none
  | .signal aborted => .ok (some aborted)
  | .invalid => .error ⟨.invalidSignal, .of "browser tool signal must be an AbortSignal",
      .invocation⟩

/-- What may interrupt a call. -/
inductive Interruption
  | abort
  | timer
  deriving DecidableEq

/-- How the handler settles. -/
inductive Outcome
  | returned (value : JsValue)
  | threw (error : Thrown)

/-- What happens to a call. -/
inductive CallEvent
  | interrupted (i : Interruption)
  | completed (outcome : Outcome)

/-- A call whose handler is running: whether the caller gave a signal and a timer is set, and what
has happened since. -/
structure InFlight where
  callId : NonEmptyText
  bounds : Bounds
  listening : Bool
  armed : Bool
  aborted : Bool
  timedOut : Bool

/-- The states of a call. -/
inductive CallState
  | running (f : InFlight)
  | settled (answer : Except ShapeError ToolResult)

/-- What becomes of a call before its handler is called. -/
inductive Opening
  | refused (error : ResultError) (bounds : Bounds)
  | cancelled (bounds : Bounds)
  | started (f : InFlight)

section

variable (numeral : ℚ → JsText)

/-- The effective bounds of a call of a tool. -/
def callBounds (registry : Registry) (entry : PartialBounds) (call : ToolCall) : Bounds :=
  (registry.defaultBounds.override entry).override call.bounds

/-- Opens a call. -/
def openCall (registry : Registry) (call : ToolCall) (signal : Option Bool) : Opening :=
  match registry.entries.lookup (toolKey call) with
  | none => .refused (toolNotFound call) registry.defaultBounds
  | some entry =>
    let bounds := callBounds registry entry call
    if bounds.maxArgumentBytes < jsonByteLength numeral call.arguments then
      .refused (argumentsTooLarge numeral bounds) bounds
    else if signal = some true then .cancelled bounds
    else .started {
      callId := call.callId, bounds, listening := signal.isSome
      -- A deadline of zero counts as none.
      armed := (call.deadlineMs.any fun deadline => deadline ≠ 0) ||
        (call.deadlineMs.all fun deadline => deadline = 0) && bounds.timeoutMs.isSome
      aborted := false, timedOut := false }

/-- `callTool`, up to the call of the handler. -/
def callTool (registry : Registry) (now : ℚ) (request : CallRequest) (signal : SignalValue) :
    CallState :=
  match optionalAbortSignal signal with
  | .error e => .settled (.error e)
  | .ok signal =>
    match normalizeToolCall now request with
    | .error e => .settled (.error e)
    | .ok call =>
      match openCall numeral registry call signal with
      | .refused error bounds =>
        .settled (failureResult numeral (.ofError error) bounds call.callId false false)
      | .cancelled bounds =>
        .settled (failureResult numeral (.ofError cancelledError) bounds call.callId true false)
      | .started f => .running f

namespace InFlight

/-- The signal and the timer are heard of only if they are there. -/
def interrupt (f : InFlight) : Interruption → InFlight
  | .abort => { f with aborted := f.aborted || f.listening }
  | .timer => { f with timedOut := f.timedOut || f.armed }

/-- The `catch` around the handler. -/
def fail (f : InFlight) (error : Thrown) : Except ShapeError ToolResult :=
  failureResult numeral (classifyCallError error f.aborted f.timedOut) f.bounds f.callId
    (f.aborted || error.name.IsText "AbortError") f.timedOut

/-- The `try` around the handler, once the handler has returned. -/
def accept (f : InFlight) (value : JsValue) : Except ShapeError ToolResult :=
  if f.timedOut then failureResult numeral (.ofError timeoutError) f.bounds f.callId false true
  else if f.aborted then
    failureResult numeral (.ofError cancelledError) f.bounds f.callId true false
  else normalizeToolResult numeral f.bounds (.string f.callId.1) value

/-- The result of an outcome. -/
def finish (f : InFlight) : Outcome → Except ShapeError ToolResult
  | .returned value =>
    match f.accept numeral value with
    | .ok r => .ok r
    | .error e => f.fail numeral e.toThrown
  | .threw error => f.fail numeral error

end InFlight

namespace CallState

/-- Once a call is settled, its timer is cleared and its signal is not listened to. -/
def receive : CallState → CallEvent → CallState
  | settled answer, _ => settled answer
  | running f, .interrupted i => running (f.interrupt i)
  | running f, .completed outcome => settled (f.finish numeral outcome)

def run (c : CallState) (events : List CallEvent) : CallState := events.foldl (receive numeral) c

end CallState

end

end Tool

end WasmHost

import WasmHost.Lib.SplitInfix
import WasmHost.Web.JsRuntime

/-!
# Responses of the model

How `ModelResponseWriter` of `codex-browser.js` turns the body of a response into the bytes of the
standard output: as they are, or, for a stream of events, the texts in the events. The output takes
every write.
-/

namespace WasmHost

open Tool (JsText JsValue js)

/-- An error of the writer, or something that the language throws. -/
inductive ModelThrown (ρ : Type)
  | invalidModelSse (message : JsText)
  | other (reason : ρ)

variable {ρ : Type}

/-- What is thrown, and what the output was given before. -/
structure ModelFailure (ρ : Type) where
  thrown : ModelThrown ρ
  stdout : Bytes

/-! ### Events -/

/-- A server-sent event. -/
structure SseEvent where
  event : Text
  data : List Text
  deriving DecidableEq

namespace SseEvent

def empty : SseEvent := ⟨[], []⟩

/-- `data.join("\n")`. -/
def dataText (e : SseEvent) : Text := ['\n'].intercalate e.data

/-- One line of an event. -/
def readLine (e : SseEvent) (line : Text) : SseEvent :=
  if line = [] ∨ line.head? = some ':' then e
  else
    let (field, value) := (splitOnce ':' line).getD (line, [])
    let value := if value.head? = some ' ' then value.tail else value
    if field = "event".toList then { e with event := value }
    else if field = "data".toList then { e with data := e.data ++ [value] }
    else e

/-- The event, unless it has no field. -/
def kept (e : SseEvent) : Option SseEvent := if e.event = [] ∧ e.data = [] then none else some e

end SseEvent

/-- The event in a frame. -/
def parseSseFrame (frame : Text) : Option SseEvent :=
  ((frame.splitOn '\n').foldl SseEvent.readLine .empty).kept

/-- `/\r\n/g`: a carriage return before a line feed goes. -/
def replaceCrLf : Text → Text
  | [] => []
  | c :: t => if c = '\r' ∧ t.head? = some '\n' then replaceCrLf t else c :: replaceCrLf t

def normalizeSseNewlines (t : Text) : Text :=
  (replaceCrLf t).map fun c => if c = '\r' then '\n' else c

section

variable (rt : JsRuntime ρ)

/-- The texts of a delta; what the output is given is empty where nothing is written. -/
def writeTextDelta (payload : JsValue) : Except (ModelThrown ρ) Bytes :=
  match payload.field "delta" with
  | .string delta => .ok (encodeUnits delta)
  | _ => .error (.invalidModelSse (js "codex-browser model SSE delta was invalid"))

/-- The type of an event, by its payload or its name. -/
def eventType (e : SseEvent) (payload : JsValue) : Except ρ JsText :=
  rt.string ((payload.field "type").orElse (.string (toUnits e.event)))

/-- What an event gives to the output. -/
def handleEvent (e : SseEvent) : Except (ModelThrown ρ) Bytes :=
  if jsTrim (toUnits e.dataText) = js "[DONE]" then .ok []
  else
    match rt.parse e.dataText with
    | .error _ => .error (.invalidModelSse (js "codex-browser model SSE event was not JSON"))
    | .ok payload =>
      match eventType rt e payload with
      | .error reason => .error (.other reason)
      | .ok type =>
        if type = js "response.output_text.delta" then writeTextDelta payload
        else if type = js "response.error" then
          .error (.invalidModelSse (js "codex-browser model SSE event reported an error"))
        else .ok []

/-- An event after what the output was given. -/
def putEvent (stdout : Bytes) (e : SseEvent) : Except (ModelFailure ρ) Bytes :=
  match handleEvent rt e with
  | .ok bytes => .ok (stdout ++ bytes)
  | .error thrown => .error ⟨thrown, stdout⟩

/-- Writes what a frame tells. -/
def handleFrame (stdout : Bytes) (frame : Text) : Except (ModelFailure ρ) Bytes :=
  match parseSseFrame frame with
  | none => .ok stdout
  | some e => putEvent rt stdout e

/-! ### The writers -/

/-- The frames of a buffer, and what is left of it. -/
def cutFrames (buffer : Text) : List Text × Text := splitAll ['\n', '\n'] (by decide) buffer

/-- A `ResponsesSseModelWriter`. -/
structure SseWriter where
  buffer : Text
  decoder : Utf8.Decoder

def SseWriter.new : SseWriter := ⟨[], .new⟩

/-- The loop of `drainEvents`. -/
def drainEvents (buffer : Text) (stdout : Bytes) : Except (ModelFailure ρ) (Text × Bytes) :=
  ((cutFrames (normalizeSseNewlines buffer)).1.foldlM (handleFrame rt) stdout).map
    ((cutFrames (normalizeSseNewlines buffer)).2, ·)

/-- Takes a chunk. -/
def SseWriter.write (sse : SseWriter) (chunk : Bytes) (stdout : Bytes) :
    Except (ModelFailure ρ) (SseWriter × Bytes) := do
  let (buffer, stdout) ← drainEvents rt (sse.buffer ++ (sse.decoder.push chunk).1) stdout
  return (⟨buffer, (sse.decoder.push chunk).2⟩, stdout)

/-- The last frame need not be ended. -/
def SseWriter.finish (sse : SseWriter) (stdout : Bytes) : Except (ModelFailure ρ) Bytes := do
  let (buffer, stdout) ← drainEvents rt (sse.buffer ++ sse.decoder.finish) stdout
  if jsTrim (toUnits buffer) ≠ [] then handleFrame rt stdout buffer else return stdout

def isSuccessfulHttpStatus (status : ℕ) : Bool := 200 ≤ status && status ≤ 299

/-- The value of the first header with a name. -/
def modelHeaderValue (headers : List (JsText × JsText)) (name : JsText) : JsText :=
  ((headers.find? fun header => rt.toLowerCase header.1 = rt.toLowerCase name).map Prod.snd).getD []

/-- The body is a stream of events. -/
def isEventStreamResponse (headers : List (JsText × JsText)) : Bool :=
  ((rt.toLowerCase (modelHeaderValue rt headers (js "content-type"))).splitOn 59).any fun value =>
    jsTrim value = js "text/event-stream"

/-- A `ModelResponseWriter`. -/
structure ModelResponseWriter where
  status : Option ℕ
  headers : List (JsText × JsText)
  sse : Option SseWriter
  stdout : Bytes

namespace ModelResponseWriter

def new : ModelResponseWriter := ⟨none, [], none, []⟩

variable (w : ModelResponseWriter) (status : ℕ) (headers : List (JsText × JsText))

/-- Chooses how the body is decoded. -/
def configureResponseDecoder : ModelResponseWriter :=
  if w.sse.isSome = true ∨ (w.status.any isSuccessfulHttpStatus) = false ∨
    isEventStreamResponse rt w.headers = false then w
  else { w with sse := some .new }

/-- Takes the head. -/
def start : ModelResponseWriter :=
  configureResponseDecoder rt { w with status := some status, headers := headers }

/-- Takes a chunk of the body. -/
def writeBodyChunk (chunk : Bytes) : Except (ModelFailure ρ) ModelResponseWriter :=
  if w.status.all isSuccessfulHttpStatus = false then .ok w
  else
    match w.sse with
    | some sse => (sse.write rt chunk w.stdout).map fun r =>
        { w with sse := some r.1, stdout := r.2 }
    | none => .ok { w with stdout := w.stdout ++ chunk }

/-- Takes the end, and a body that was not streamed. -/
def finish (body : Bytes) : Except (ModelFailure ρ) ModelResponseWriter := do
  let w := configureResponseDecoder rt { w with status := some status, headers := headers }
  let w ← if isSuccessfulHttpStatus status = true ∧ body ≠ [] then w.writeBodyChunk rt body
    else .ok w
  match w.sse with
  | some sse =>
    if isSuccessfulHttpStatus status = true then
      (sse.finish rt w.stdout).map fun stdout => { w with stdout := stdout }
    else return w
  | none => return w

end ModelResponseWriter

/-- What the output was given, and what was thrown. -/
structure ModelOutcome (ρ : Type) where
  stdout : Bytes
  thrown : Option (ModelThrown ρ)

/-- What the caller sees of a result. -/
def ModelOutcome.of : Except (ModelFailure ρ) Bytes → ModelOutcome ρ
  | .ok stdout => ⟨stdout, none⟩
  | .error failure => ⟨failure.stdout, some failure.thrown⟩

/-- A response that is dispatched to a new writer: its start, the chunks of its body and its end,
which may bring the rest of the body. -/
def modelResponse (status : ℕ) (headers : List (JsText × JsText)) (chunks : List Bytes)
    (body : Bytes) : ModelOutcome ρ :=
  .of <| (chunks.foldlM (ModelResponseWriter.writeBodyChunk rt)
    (ModelResponseWriter.new.start rt status headers)).bind fun w =>
      (w.finish rt status headers body).map ModelResponseWriter.stdout

end

end WasmHost

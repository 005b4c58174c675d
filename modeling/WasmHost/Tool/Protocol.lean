import Mathlib.Data.PNat.Basic
import WasmHost.Tool.Json

/-!
# The shapes of the tool protocol

The normalizers of calls and of results, as the package of the protocol has them. What they return
carries in its types what they have checked: texts that are not empty, bounds that are positive
integers, contents that are JSON.
-/

namespace WasmHost

namespace Tool

/-! ### Parameters -/

/-- A value that is an object. -/
def objectParam (value : JsValue) (message : NonEmptyText) : Except ShapeError JsValue :=
  match value with
  | .object _ _ => .ok value
  | _ => .error ⟨.invalidObject, message, .validation⟩

/-- The items of an array. -/
def arrayParam (value : JsValue) (message : NonEmptyText) : Except ShapeError (List JsValue) :=
  match value with
  | .array _ items => .ok items
  | _ => .error ⟨.invalidArray, message, .validation⟩

/-- `browser tool ${field} …`. -/
def about (field : String) (complaint : String) : NonEmptyText :=
  (NonEmptyText.of "browser tool ").append (js field ++ js complaint)

/-- A value that is a text. -/
def stringParam (value : JsValue) (field : String) (stage : Stage) : Except ShapeError JsText :=
  match value with
  | .string t => .ok t
  | _ => .error ⟨.invalidString, about field " must be a string", stage⟩

/-- A text that is not empty. -/
def nonEmptyString (value : JsValue) (field : String) (stage : Stage) :
    Except ShapeError NonEmptyText :=
  (stringParam value field stage).bind fun t =>
    if h : t = [] then .error ⟨.invalidString, about field " must not be empty", stage⟩
    else .ok ⟨t, h⟩

/-- A value that is a boolean. -/
def booleanParam (value : JsValue) (field : String) (stage : Stage) : Except ShapeError Bool :=
  match value with
  | .boolean b => .ok b
  | _ => .error ⟨.invalidBoolean, about field " must be a boolean", stage⟩

/-- A value that is a number. -/
def numberParam (value : JsValue) (field : String) (stage : Stage) : Except ShapeError ℚ :=
  match value with
  | .number q => .ok q
  | _ => .error ⟨.invalidNumber, about field " must be a finite number", stage⟩

/-- A value that is an integer from 1. -/
def positiveInteger (value : JsValue) (field : String) (stage : Stage) : Except ShapeError ℕ+ :=
  match value with
  | .number q =>
    if h : q.den = 1 ∧ 0 < q.num then .ok ⟨q.num.toNat, Int.pos_iff_toNat_pos.1 h.2⟩
    else .error ⟨.invalidBounds, about field " must be a positive integer", stage⟩
  | _ => .error ⟨.invalidBounds, about field " must be a positive integer", stage⟩

/-- A letter or a digit. -/
def isAlphanumeric (u : UInt16) : Bool :=
  (48 ≤ u && u ≤ 57) || (65 ≤ u && u ≤ 90) || (97 ≤ u && u ≤ 122)

/-- `IDENTIFIER_PATTERN`. -/
def isIdentifier : JsText → Bool
  | [] => false
  | u :: rest => isAlphanumeric u && rest.length ≤ 127 &&
      rest.all fun v => isAlphanumeric v || v == 95 || v == 46 || v == 45

/-- A text that is an identifier. -/
def requiredIdentifier (value : JsValue) (field : String) (stage : Stage) :
    Except ShapeError NonEmptyText :=
  (nonEmptyString value field stage).bind fun t =>
    if isIdentifier t.1 then .ok t
    else .error ⟨.invalidIdentifier,
      (about field " is not a supported identifier: ").append t.1, stage⟩

/-- A field that may be left out: it is read unless it is undefined. -/
def unlessUndefined {α : Type} (value : JsValue) (read : JsValue → Except ShapeError α) :
    Except ShapeError (Option α) :=
  match value with
  | .undefined => .ok none
  | _ => (read value).map some

/-- A field that may be left out or null. -/
def unlessNullish {α : Type} (value : JsValue) (read : JsValue → Except ShapeError α) :
    Except ShapeError (Option α) :=
  match value with
  | .undefined | .null => .ok none
  | _ => (read value).map some

/-! ### Bounds -/

/-- The bounds of a tool. -/
structure Bounds where
  maxArgumentBytes : ℕ+
  maxContentItems : ℕ+
  maxItemBytes : ℕ+
  maxResultBytes : ℕ+
  timeoutMs : Option ℕ+

/-- Bounds of which some may be left out. -/
structure PartialBounds where
  maxArgumentBytes : Option ℕ+
  maxContentItems : Option ℕ+
  maxItemBytes : Option ℕ+
  maxResultBytes : Option ℕ+
  timeoutMs : Option ℕ+

/-- `DEFAULT_BOUNDS`. -/
def defaultBounds : Bounds := ⟨64 * 1024, 32, 32 * 1024, 64 * 1024, none⟩

/-- `{ ...bounds, ...changes }`. -/
def Bounds.override (bounds : Bounds) (changes : PartialBounds) : Bounds where
  maxArgumentBytes := changes.maxArgumentBytes.getD bounds.maxArgumentBytes
  maxContentItems := changes.maxContentItems.getD bounds.maxContentItems
  maxItemBytes := changes.maxItemBytes.getD bounds.maxItemBytes
  maxResultBytes := changes.maxResultBytes.getD bounds.maxResultBytes
  timeoutMs := changes.timeoutMs.or bounds.timeoutMs

/-- `normalizeBounds`, of bounds that may be partial. -/
def normalizeBounds (value : JsValue) : Except ShapeError PartialBounds := do
  let input ← objectParam value (.of "browser tool bounds must be an object")
  let bound (field : String) :=
    unlessUndefined (input.field field) fun v => positiveInteger v field .bounds
  return {
    maxArgumentBytes := ← bound "maxArgumentBytes"
    maxContentItems := ← bound "maxContentItems"
    maxItemBytes := ← bound "maxItemBytes"
    maxResultBytes := ← bound "maxResultBytes"
    timeoutMs := ← bound "timeoutMs" }

/-! ### Calls -/

/-- The fields of a request, apart from its signal. -/
structure CallRequest where
  callId : JsValue
  turnId : JsValue
  nameSpace : JsValue
  tool : JsValue
  arguments : JsValue
  bounds : JsValue
  startedAtMs : JsValue
  threadId : JsValue
  itemId : JsValue
  deadlineMs : JsValue

/-- A call of a tool. -/
structure ToolCall where
  callId : NonEmptyText
  turnId : NonEmptyText
  nameSpace : Option NonEmptyText
  tool : NonEmptyText
  arguments : Json
  bounds : PartialBounds
  startedAtMs : ℚ
  threadId : Option NonEmptyText
  itemId : Option NonEmptyText
  deadlineMs : Option ℚ

/-- `normalizeToolCall` at a time (`Date.now()`). -/
def normalizeToolCall (now : ℚ) (value : CallRequest) : Except ShapeError ToolCall := do
  let callId ← nonEmptyString value.callId "callId" .invocation
  let turnId ← nonEmptyString value.turnId "turnId" .invocation
  let nameSpace ← unlessNullish value.nameSpace fun v =>
    requiredIdentifier v "namespace" .invocation
  let tool ← requiredIdentifier value.tool "tool" .invocation
  let arguments ← cloneJson (value.arguments.orElse (.object .plain []))
  let bounds ← normalizeBounds (value.bounds.orElse (.object .plain []))
  let startedAtMs ← numberParam (value.startedAtMs.orElse (.number now)) "startedAtMs" .invocation
  let threadId ← unlessNullish value.threadId fun v => nonEmptyString v "threadId" .invocation
  let itemId ← unlessNullish value.itemId fun v => nonEmptyString v "itemId" .invocation
  let deadlineMs ← unlessUndefined value.deadlineMs fun v => numberParam v "deadlineMs" .invocation
  return { callId, turnId, nameSpace, tool, arguments, bounds, startedAtMs, threadId, itemId,
           deadlineMs }

/-! ### Results -/

/-- The content items of a result. -/
inductive ContentItem
  | text (text : JsText) (mimeType : Option NonEmptyText)
  | json (value : Json)
  | image (imageUrl : NonEmptyText) (mimeType : Option NonEmptyText) (altText : Option JsText)

/-- The error of a result. -/
structure ResultError where
  kind : NonEmptyText
  message : NonEmptyText
  stage : Option NonEmptyText

/-- The result of a call. -/
structure ToolResult where
  callId : NonEmptyText
  success : Bool
  contentItems : List ContentItem
  structured : Option Json
  error : Option ResultError
  completedAtMs : Option ℚ
  durationMs : Option ℚ
  cancelled : Bool
  timedOut : Bool

/-- A field that is there if it has a value. -/
def optionalField (name : String) (value : Option Json) : List (JsText × Json) :=
  (value.map fun j => (js name, j)).toList

def textJson (t : NonEmptyText) : Json := .string t.1

/-- An item as JSON. -/
def ContentItem.toJson : ContentItem → Json
  | text t mimeType =>
    .object ([(js "type", .string (js "text")), (js "text", .string t)] ++
      optionalField "mimeType" (mimeType.map textJson))
  | json value => .object [(js "type", .string (js "json")), (js "value", value)]
  | image imageUrl mimeType altText =>
    .object ([(js "type", .string (js "image")), (js "imageUrl", textJson imageUrl)] ++
      optionalField "mimeType" (mimeType.map textJson) ++
      optionalField "altText" (altText.map .string))

/-- An error as JSON. -/
def ResultError.toJson (e : ResultError) : Json :=
  .object ([(js "kind", textJson e.kind), (js "message", textJson e.message)] ++
    optionalField "stage" (e.stage.map textJson))

/-- A flag that is there if it is set. -/
def flagField (name : String) (flag : Bool) : List (JsText × Json) :=
  optionalField name (if flag then some (.boolean true) else none)

/-- A result as JSON. -/
def ToolResult.toJson (r : ToolResult) : Json :=
  .object ([(js "callId", textJson r.callId), (js "success", .boolean r.success),
      (js "contentItems", .array (r.contentItems.map ContentItem.toJson))] ++
    optionalField "structured" r.structured ++
    optionalField "error" (r.error.map ResultError.toJson) ++
    optionalField "completedAtMs" (r.completedAtMs.map .number) ++
    optionalField "durationMs" (r.durationMs.map .number) ++
    flagField "cancelled" r.cancelled ++ flagField "timedOut" r.timedOut)

section

variable (numeral : ℚ → JsText)

/-- The size of a value that the bounds are about. -/
def jsonByteLength (j : Json) : ℕ := encodedLength (jsonString numeral j)

/-- `… exceeded ${bound} …`. -/
def exceeded (what : String) (bound : ℕ+) (unit : String) : NonEmptyText :=
  (NonEmptyText.of "browser tool ").append
    (js what ++ js " exceeded " ++ numeral (bound : ℕ) ++ js unit)

def assertJsonByteLength (j : Json) (maxBytes : ℕ+) (error : ShapeError) : Except ShapeError Unit :=
  if jsonByteLength numeral j ≤ maxBytes then .ok () else .error error

/-- The item before it is measured. -/
def readContentItem (value : JsValue) : Except ShapeError ContentItem :=
  if (value.field "type").IsText "text" then do
    let text ← stringParam (value.field "text") "text" .result
    let mimeType ← unlessUndefined (value.field "mimeType") fun v =>
      nonEmptyString v "mimeType" .result
    return .text text mimeType
  else if (value.field "type").IsText "json" then do
    let value ← cloneJson (value.field "value")
    return .json value
  else if (value.field "type").IsText "image" then do
    let imageUrl ← nonEmptyString (value.field "imageUrl") "imageUrl" .result
    let mimeType ← unlessUndefined (value.field "mimeType") fun v =>
      nonEmptyString v "mimeType" .result
    let altText ← unlessUndefined (value.field "altText") fun v => stringParam v "altText" .result
    return .image imageUrl mimeType altText
  else .error ⟨.invalidContentItem, .of "browser tool content items must be text, json, or image",
    .result⟩

/-- An item of a result. -/
def normalizeContentItem (bounds : Bounds) (item : JsValue) : Except ShapeError ContentItem := do
  let value ← objectParam item (.of "browser tool content items must be objects")
  let normalized ← readContentItem value
  assertJsonByteLength numeral normalized.toJson bounds.maxItemBytes
    ⟨.contentItemTooLarge, exceeded numeral "content item" bounds.maxItemBytes " bytes", .result⟩
  return normalized

def normalizeResultError (error : JsValue) : Except ShapeError ResultError := do
  let value ← objectParam error (.of "browser tool result errors must be objects")
  let kind ← nonEmptyString (value.field "kind") "error.kind" .result
  let message ← nonEmptyString (value.field "message") "error.message" .result
  let stage ← unlessUndefined (value.field "stage") fun v => nonEmptyString v "error.stage" .result
  return { kind, message, stage }

/-- `normalizeToolResult`, with the bounds and the id of its options. -/
def normalizeToolResult (bounds : Bounds) (callId : JsValue) (result : JsValue) :
    Except ShapeError ToolResult := do
  let _ ← assertJsonSerializable result
  let value ← objectParam result (.of "browser tool results must be objects")
  let callId ← nonEmptyString ((value.field "callId").orElse callId) "callId" .result
  let success ← booleanParam ((value.field "success").orElse (.boolean true)) "success" .result
  let items ← arrayParam ((value.field "contentItems").orElse (.array .plain []))
    (.of "browser tool result contentItems must be an array")
  let contentItems ← items.mapM (normalizeContentItem numeral bounds)
  if bounds.maxContentItems < contentItems.length then
    .error ⟨.tooManyContentItems, exceeded numeral "result" bounds.maxContentItems " content items",
      .result⟩
  let structured ← unlessUndefined (value.field "structured") cloneJson
  let error ← unlessUndefined (value.field "error") normalizeResultError
  let completedAtMs ← unlessUndefined (value.field "completedAtMs") fun v =>
    numberParam v "completedAtMs" .result
  let durationMs ← unlessUndefined (value.field "durationMs") fun v =>
    numberParam v "durationMs" .result
  let normalized : ToolResult :=
    { callId, success, contentItems, structured, error, completedAtMs, durationMs
      cancelled := (value.field "cancelled").isTrue, timedOut := (value.field "timedOut").isTrue }
  assertJsonByteLength numeral normalized.toJson bounds.maxResultBytes
    ⟨.resultTooLarge, exceeded numeral "result" bounds.maxResultBytes " bytes", .result⟩
  return normalized

end

end Tool

end WasmHost

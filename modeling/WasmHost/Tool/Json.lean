import Mathlib.Data.Rat.Defs
import WasmHost.Lib.Except

/-!
# Values of JavaScript and their JSON

The values that a caller or a tool hands to the protocol, those of them that are JSON, and the JSON
text of the latter, whose UTF-8 length the bounds are about. Strings are lists of UTF-16 code units,
so that a lone surrogate can occur in one. A value is data: it has no accessors, and an object that
contains itself ends where it does so.

How a number is printed is the language's and a parameter (`numeral`).
-/

namespace WasmHost

namespace Tool

/-- A string of JavaScript: its UTF-16 code units. -/
abbrev JsText := List UInt16

/-- The text of a literal. -/
def js (s : String) : JsText :=
  s.toList.flatMap fun c =>
    if c.toNat < 0x10000 then [UInt16.ofNat c.toNat]
    else [UInt16.ofNat (0xD800 + (c.toNat - 0x10000) / 0x400),
      UInt16.ofNat (0xDC00 + (c.toNat - 0x10000) % 0x400)]

/-- A text that is not empty. -/
abbrev NonEmptyText := {t : JsText // t ≠ []}

namespace NonEmptyText

def of (s : String) (h : js s ≠ [] := by decide) : NonEmptyText := ⟨js s, h⟩

def append (t : NonEmptyText) (rest : JsText) : NonEmptyText := ⟨t.1 ++ rest, by simp [t.2]⟩

end NonEmptyText

/-- What keeps an array or an object from being plain: its prototype or a symbol key. -/
inductive ObjectKind
  | plain
  | exotic
  | symbolKeyed
  deriving DecidableEq

/-- The values of JavaScript. -/
inductive JsValue
  | undefined
  | null
  | boolean (b : Bool)
  | number (q : ℚ)
  /-- `NaN` and the infinities. -/
  | nonFinite
  | string (t : JsText)
  | array (kind : ObjectKind) (items : List JsValue)
  | object (kind : ObjectKind) (fields : List (JsText × JsValue))
  /-- An array or an object that it is itself a part of. -/
  | cycle
  /-- Functions, symbols and big integers. -/
  | other

/-- A JSON value. -/
inductive Json
  | null
  | boolean (b : Bool)
  | number (q : ℚ)
  | string (t : JsText)
  | array (items : List Json)
  | object (fields : List (JsText × Json))

/-! ### Reading values -/

namespace JsValue

/-- `value.name`, which is undefined for what has no such field. -/
def field (value : JsValue) (name : String) : JsValue :=
  match value with
  | object _ fields => (fields.lookup (js name)).getD undefined
  | _ => undefined

/-- `value ?? default`. -/
def orElse (value default : JsValue) : JsValue :=
  match value with
  | undefined | null => default
  | _ => value

/-- `value === text`. -/
def IsText (value : JsValue) (text : String) : Prop := value = string (js text)

/-- Texts can be compared. -/
instance (value : JsValue) (text : String) : Decidable (value.IsText text) :=
  match value with
  | string t => decidable_of_iff (t = js text) (by simp [IsText])
  | undefined | null | boolean _ | number _ | nonFinite | array _ _ | object _ _ | cycle | other =>
    isFalse nofun

/-- `value === true`. -/
def isTrue : JsValue → Bool
  | boolean b => b
  | _ => false

end JsValue

mutual

/-- JSON as a value of the runtime. -/
def Json.toValue : Json → JsValue
  | .null => .null
  | .boolean b => .boolean b
  | .number q => .number q
  | .string t => .string t
  | .array items => .array .plain (toValueItems items)
  | .object fields => .object .plain (toValueFields fields)
  termination_by structural j => j

/-- The items as values. -/
def toValueItems : List Json → List JsValue
  | [] => []
  | item :: items => item.toValue :: toValueItems items
  termination_by structural items => items

/-- The fields as values. -/
def toValueFields : List (JsText × Json) → List (JsText × JsValue)
  | [] => []
  | field :: fields => toValueField field :: toValueFields fields
  termination_by structural fields => fields

/-- A field as a value. -/
def toValueField : JsText × Json → JsText × JsValue
  | (name, value) => (name, value.toValue)
  termination_by structural field => field

end

/-! ### The check -/

/-- The kinds of the errors that the checks of values throw. -/
inductive ShapeKind
  | invalidJson | invalidObject | invalidArray | invalidString | invalidIdentifier | invalidBoolean
  | invalidNumber | invalidBounds | invalidSignal | invalidContentItem | contentItemTooLarge
  | tooManyContentItems | resultTooLarge
  deriving DecidableEq

/-- `kind`, which is also the `code` of the error. -/
def ShapeKind.text : ShapeKind → NonEmptyText
  | invalidJson => .of "invalid_json"
  | invalidObject => .of "invalid_object"
  | invalidArray => .of "invalid_array"
  | invalidString => .of "invalid_string"
  | invalidIdentifier => .of "invalid_identifier"
  | invalidBoolean => .of "invalid_boolean"
  | invalidNumber => .of "invalid_number"
  | invalidBounds => .of "invalid_bounds"
  | invalidSignal => .of "invalid_signal"
  | invalidContentItem => .of "invalid_content_item"
  | contentItemTooLarge => .of "content_item_too_large"
  | tooManyContentItems => .of "too_many_content_items"
  | resultTooLarge => .of "result_too_large"

/-- The stages of a call. -/
inductive Stage
  | serialization | validation | bounds | invocation | result
  deriving DecidableEq

/-- The name of a stage. -/
def Stage.text : Stage → NonEmptyText
  | serialization => .of "serialization"
  | validation => .of "validation"
  | bounds => .of "bounds"
  | invocation => .of "invocation"
  | result => .of "result"

/-- A `BrowserToolProtocolError` that a check throws. -/
structure ShapeError where
  kind : ShapeKind
  message : NonEmptyText
  stage : Stage

def invalidJson (message : NonEmptyText) : ShapeError := ⟨.invalidJson, message, .serialization⟩

/-- An object has to be plain. -/
def ObjectKind.check : ObjectKind → Except ShapeError Unit
  | plain => .ok ()
  | exotic => .error (invalidJson (.of "browser tool values must be plain JSON values"))
  | symbolKeyed => .error (invalidJson (.of "browser tool values must not contain symbol keys"))

mutual

/-- The check, which hands back the value as the JSON that it is. -/
def assertJsonSerializable : JsValue → Except ShapeError Json
  | .null => .ok .null
  | .boolean b => .ok (.boolean b)
  | .number q => .ok (.number q)
  | .string t => .ok (.string t)
  | .array kind items => kind.check.bind fun _ => (assertItems items).map .array
  | .object kind fields => kind.check.bind fun _ => (assertFields fields).map .object
  | .cycle => .error (invalidJson (.of "browser tool values must not contain cycles"))
  | .undefined | .nonFinite | .other =>
    .error (invalidJson (.of "browser tool values must be JSON serializable"))
  termination_by structural value => value

/-- The items as JSON. -/
def assertItems : List JsValue → Except ShapeError (List Json)
  | [] => .ok []
  | item :: items => (assertJsonSerializable item).bind fun j => (assertItems items).map (j :: ·)
  termination_by structural items => items

/-- The fields as JSON. -/
def assertFields : List (JsText × JsValue) → Except ShapeError (List (JsText × Json))
  | [] => .ok []
  | field :: fields => (assertField field).bind fun f => (assertFields fields).map (f :: ·)
  termination_by structural fields => fields

/-- A field as JSON. -/
def assertField : JsText × JsValue → Except ShapeError (JsText × Json)
  | (name, value) => (assertJsonSerializable value).map (name, ·)
  termination_by structural field => field

end

/-- The parsed text of a serializable value is the value again. -/
def cloneJson (value : JsValue) : Except ShapeError Json := assertJsonSerializable value

/-! ### The text -/

def isLead (u : UInt16) : Bool := 0xD800 ≤ u && u < 0xDC00

def isTrail (u : UInt16) : Bool := 0xDC00 ≤ u && u < 0xE000

def hexDigit (n : ℕ) : UInt16 := if n < 10 then UInt16.ofNat (48 + n) else UInt16.ofNat (87 + n)

/-- A unit as an escape. -/
def unicodeEscape (u : UInt16) : JsText :=
  js "\\u" ++ [hexDigit (u.toNat / 4096), hexDigit (u.toNat / 256 % 16),
    hexDigit (u.toNat / 16 % 16), hexDigit (u.toNat % 16)]

/-- One code unit of a string that is not half of a pair. -/
def quoteUnit (u : UInt16) : JsText :=
  if u = 8 then js "\\b"
  else if u = 9 then js "\\t"
  else if u = 10 then js "\\n"
  else if u = 12 then js "\\f"
  else if u = 13 then js "\\r"
  else if u = 34 then js "\\\""
  else if u = 92 then js "\\\\"
  else if u < 32 ∨ isLead u ∨ isTrail u then unicodeEscape u
  else [u]

/-- The units between the quotes. -/
def quoteUnits : JsText → JsText
  | [] => []
  | [u] => quoteUnit u
  | u :: v :: rest =>
    if isLead u && isTrail v then u :: v :: quoteUnits rest
    else quoteUnit u ++ quoteUnits (v :: rest)

def quoted (t : JsText) : JsText := js "\"" ++ quoteUnits t ++ js "\""

section

variable (numeral : ℚ → JsText)

mutual

/-- `JSON.stringify`. -/
def jsonString : Json → JsText
  | .null => js "null"
  | .boolean true => js "true"
  | .boolean false => js "false"
  | .number q => numeral q
  | .string t => quoted t
  | .array items => js "[" ++ (js ",").intercalate (itemStrings items) ++ js "]"
  | .object fields => js "\x7b" ++ (js ",").intercalate (fieldStrings fields) ++ js "\x7d"
  termination_by structural j => j

/-- The texts of the items. -/
def itemStrings : List Json → List JsText
  | [] => []
  | item :: items => jsonString item :: itemStrings items
  termination_by structural items => items

/-- The texts of the fields. -/
def fieldStrings : List (JsText × Json) → List JsText
  | [] => []
  | field :: fields => fieldString field :: fieldStrings fields
  termination_by structural fields => fields

/-- The text of a field. -/
def fieldString : JsText × Json → JsText
  | (name, value) => quoted name ++ js ":" ++ jsonString value
  termination_by structural field => field

end

end

/-- How many bytes `TextEncoder` makes of a text. A lone surrogate becomes U+FFFD. -/
def encodedLength : JsText → ℕ
  | [] => 0
  | [u] => unitLength u
  | u :: v :: rest =>
    if isLead u && isTrail v then 4 + encodedLength rest
    else unitLength u + encodedLength (v :: rest)
where
  unitLength (u : UInt16) : ℕ := if u < 0x80 then 1 else if u < 0x800 then 2 else 3

/-! ### JSON is serializable -/

mutual

theorem assertJsonSerializable_toValue (j : Json) : assertJsonSerializable j.toValue = .ok j := by
  match j with
  | .null | .boolean _ | .number _ | .string _ => rfl
  | .array items =>
    simp [Json.toValue, assertJsonSerializable, ObjectKind.check, Except.bind, Except.map,
      assertItems_toValue items]
  | .object fields =>
    simp [Json.toValue, assertJsonSerializable, ObjectKind.check, Except.bind, Except.map,
      assertFields_toValue fields]

theorem assertItems_toValue (items : List Json) : assertItems (toValueItems items) = .ok items := by
  match items with
  | [] => rfl
  | item :: items =>
    simp [toValueItems, assertItems, assertJsonSerializable_toValue item, assertItems_toValue items,
      Except.bind, Except.map]

theorem assertFields_toValue (fields : List (JsText × Json)) :
    assertFields (toValueFields fields) = .ok fields := by
  match fields with
  | [] => rfl
  | (name, value) :: fields =>
    simp [toValueFields, toValueField, assertFields, assertField,
      assertJsonSerializable_toValue value, assertFields_toValue fields, Except.bind, Except.map]

end

end Tool

end WasmHost

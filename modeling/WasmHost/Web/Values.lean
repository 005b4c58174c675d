import WasmHost.Lib.Base64
import WasmHost.Text

/-!
# Values in messages

What the workers of the browser take out of the messages they are sent: bytes in one of several
forms, and errors. The helpers stand in `http-worker.js` and once more in `command-worker.js`, which
throws errors of its own.
-/

namespace WasmHost

/-- A value where bytes are expected: a view or a buffer, a string, or anything else. -/
inductive ChunkValue
  | bytes (b : Bytes)
  | text (t : Text)
  | other
  deriving DecidableEq

/-- A value where an array is expected. -/
inductive ArrayValue (α : Type)
  | items (l : List α)
  | other

/-- What is wrong with a value, apart from the text of the error. -/
inductive ChunkFault
  | notBytes
  | badBase64
  | notOne
  deriving DecidableEq

/-- The bytes of a chunk. -/
def toUint8Array : ChunkValue → Except ChunkFault Bytes
  | .bytes b => .ok b
  | .text t => .ok (encodeText t)
  | .other => .error .notBytes

/-- The bytes of a text in base 64. -/
def base64ToBytes : ChunkValue → Except ChunkFault Bytes
  | .text t =>
    match Base64.decode t with
    | some b => .ok b
    | none => .error .badBase64
  | _ => .error .badBase64

/-- The fields `chunk` and `chunkBase64` of a message. -/
structure ChunkMessage where
  chunk : Option ChunkValue
  chunkBase64 : Option ChunkValue

/-- `bodyChunkFromMessage` and `stdinChunkFromMessage`: exactly one of the two fields. -/
def chunkFromMessage (message : ChunkMessage) : Except ChunkFault Bytes :=
  match message.chunk, message.chunkBase64 with
  | some chunk, none => toUint8Array chunk
  | none, some chunk => base64ToBytes chunk
  | _, _ => .error .notOne

end WasmHost

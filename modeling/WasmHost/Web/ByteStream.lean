import WasmHost.Web.Values

/-!
# Byte streams of a worker

`WorkerRequestBodyStream` (`http-worker.js`) and `CommandInputStream` (`command-worker.js`): bytes
that messages push and the running code reads. They differ in the error that a push or an end
behind the end throws.
-/

namespace WasmHost

/-- A stream with the promises of readers that wait counted. -/
structure ByteStream (ε : Type) where
  chunks : List Bytes
  waiters : ℕ
  closed : Bool
  error : Option ε

namespace ByteStream

variable {ε : Type}

def new : ByteStream ε := ⟨[], 0, false, none⟩

/-- `push`. The waiter that is longest there gets the bytes. -/
def push (alreadyClosed : ε) (bytes : Bytes) (s : ByteStream ε) : Except ε (ByteStream ε) :=
  if s.closed then .error alreadyClosed
  else match s.error with
  | some error => .error error
  | none =>
    if bytes = [] then .ok s
    else if 0 < s.waiters then .ok { s with waiters := s.waiters - 1 }
    else .ok { s with chunks := s.chunks ++ [bytes] }

/-- `end`: every waiter is told that nothing comes any more. -/
def finish (alreadyClosed : ε) (s : ByteStream ε) : Except ε (ByteStream ε) :=
  if s.closed then .error alreadyClosed
  else .ok { s with closed := true, waiters := 0 }

/-- `fail`: the first error stays. -/
def fail (error : ε) (s : ByteStream ε) : ByteStream ε :=
  match s.error with
  | some _ => s
  | none => { s with error := some error, waiters := 0 }

/-- What `readChunk` promises. -/
inductive Read (ε : Type)
  | chunk (bytes : Bytes)
  | rejected (error : ε)
  | ended
  | pending

/-- Reads a chunk. -/
def readChunk (s : ByteStream ε) : Read ε × ByteStream ε :=
  match s.chunks, s.error with
  | bytes :: rest, _ => (.chunk bytes, { s with chunks := rest })
  | [], some error => (.rejected error, s)
  | [], none => if s.closed then (.ended, s) else (.pending, { s with waiters := s.waiters + 1 })

/-- A stream keeps its first error. -/
theorem fail_error (error : ε) (s : ByteStream ε) :
    (s.fail error).error = some (s.error.getD error) := by
  unfold fail
  cases h : s.error <;> simp [h]

end ByteStream

end WasmHost

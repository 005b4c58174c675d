import WasmHost.Http.Exchange
import WasmHost.Http.Redirect
import WasmHost.Lib.Buffered

/-!
# Reading a response

The reader of `http.rs` for the native worker: the head, and a body that is chunked, has a length
or goes on until the connection is closed. A stream is the parts that its reads give, in order, and
how it ends. A part that is empty is a read that would block or has timed out, which is made again.
The request is not cancelled meanwhile.
-/

namespace WasmHost

/-- `NATIVE_HTTP_HEADER_LIMIT`. -/
def nativeHttpHeaderLimit : ℕ := 64 * 1024

/-- What the reads give after the last part. -/
inductive StreamEnd
  | closed
  | failed (error : String)

/-- The error of a reader that is not done when the stream ends. -/
def StreamEnd.error (ending : StreamEnd) (whenClosed context : String) : HttpBridgeError :=
  match ending with
  | .closed => .transport whenClosed
  | .failed error => .transport ("unable to read " ++ context ++ ": " ++ error)

/-! ### The head -/

/-- `str::split_whitespace`. -/
def splitWhitespace (t : Text) : List Text :=
  (t.splitOnP isWhitespace).filter fun part => part ≠ []

/-- `parse_native_http_status`. -/
def parseNativeHttpStatus (statusLine : Text) : Except HttpBridgeError ℕ :=
  let parts := splitWhitespace statusLine
  let version := parts.head?.getD []
  let status := parts.tail.head?.getD []
  if version = "HTTP/1.0".toList ∨ version = "HTTP/1.1".toList then
    match fromStrRadix 10 (2 ^ 16) status with
    | some code => .ok code
    | none => .error (.invalidResponse ("invalid HTTP response status: " ++ String.ofList status))
  else
    .error (.invalidResponse ("unsupported HTTP response version: " ++ String.ofList version))

/-- `is_chunked_transfer_encoding`. -/
def isChunkedTransferEncoding (value : Text) : Bool :=
  (value.splitOn ',').any fun encoding => toAsciiLowercase (strTrim encoding) = "chunked".toList

/-- What the header lines say. -/
structure ParsedHeaders where
  headers : List HttpHeader
  contentLength : Option ℕ
  chunked : Bool
  deriving DecidableEq

/-- One header line. A later `content-length` takes the place of an earlier one. -/
def ParsedHeaders.addLine (parsed : ParsedHeaders) (line : Text) :
    Except HttpBridgeError ParsedHeaders :=
  if line = [] then .ok parsed
  else
    match splitOnce ':' line with
    | none => .error (.invalidResponse ("invalid HTTP response header: " ++ String.ofList line))
    | some (name, value) => do
      let header ← (HttpHeader.new name value).mapError fun error =>
        .invalidResponse ("invalid HTTP response header: " ++ error.display)
      let contentLength ←
        if header.name = "content-length".toList then
          match fromStrRadix 10 (2 ^ 64) header.value with
          | some length => pure (some length)
          | none => .error (.invalidResponse
              ("invalid HTTP response content-length: " ++ String.ofList header.value))
        else pure parsed.contentLength
      return {
        headers := parsed.headers ++ [header]
        contentLength := contentLength
        chunked := parsed.chunked ||
          (header.name = "transfer-encoding".toList && isChunkedTransferEncoding header.value) }

/-- `text.split("\r\n")`. -/
def splitLines (text : Text) : List Text :=
  let (lines, last) := splitAll "\r\n".toList (by decide) text
  lines ++ [last]

/-- `parse_native_http_response_headers`. -/
def parseNativeHttpResponseHeaders (headerBytes : Bytes) :
    Except HttpBridgeError (ℕ × ParsedHeaders) :=
  match decodeText headerBytes with
  | none => .error (.invalidResponse "HTTP response headers must be UTF-8")
  | some text => do
    let lines := splitLines text
    let status ← parseNativeHttpStatus (lines.head?.getD [])
    let parsed ← lines.tail.foldlM ParsedHeaders.addLine ⟨[], none, false⟩
    return (status, parsed)

def crlfBytes : Bytes := [13, 10]

def headerEnd : Bytes := [13, 10, 13, 10]

/-- `read_native_http_response_head`, and the parts that are left. The bytes behind the head that
are read already stay in it. -/
def readNativeHttpResponseHead (ending : StreamEnd) (parts : List Bytes) :
    Except HttpBridgeError (NativeHttpResponseHead × List Bytes) :=
  match Buffered.readUntil 4096 (by decide) headerEnd nativeHttpHeaderLimit ⟨[], parts⟩ with
  | .error .exceeded => .error (.invalidResponse "HTTP response headers exceeded 65536 bytes")
  | .error .closed => .error
      (ending.error "HTTP connection closed before response headers" "HTTP response headers")
  | .ok (headerBytes, rest) => do
    let (status, parsed) ← parseNativeHttpResponseHeaders headerBytes
    return (⟨status, parsed.headers, parsed.contentLength, parsed.chunked, rest.buffer⟩, rest.parts)

/-! ### Bodies

A body is read into a consumer, which is given the bytes in order. The state is what it has been
given so far. -/

/-- A reading that delivers bytes. -/
abbrev BodyReader := ExceptT HttpBridgeError (StateM Bytes)

/-- `push_native_http_response_body_chunk`. A count that overflows is above every limit. -/
def pushNativeHttpResponseBodyChunk (bodyLimit : Option ℕ) (chunk : Bytes) : BodyReader Unit :=
  fun delivered =>
    if chunk = [] then (.ok (), delivered)
    else
      match bodyLimit with
      | some limit =>
        if limit < delivered.length + chunk.length then
          (.error (responseTooLargeError limit), delivered)
        else (.ok (), delivered ++ chunk)
      | none => (.ok (), delivered ++ chunk)

/-- `read_native_http_line`. -/
def readNativeHttpLine (ending : StreamEnd) (context : String) (b : Buffered UInt8) :
    Except HttpBridgeError (Bytes × Buffered UInt8) :=
  match b.readUntil 4096 (by decide) crlfBytes nativeHttpHeaderLimit with
  | .error .exceeded => .error (.invalidResponse (context ++ " exceeded 65536 bytes"))
  | .error .closed =>
    .error (ending.error ("HTTP connection closed before " ++ context) context)
  | .ok (line, rest) => .ok (line, rest)

variable {ending : StreamEnd} {context : String} {b b' : Buffered UInt8}

theorem length_pending_of_readNativeHttpLine {line : Bytes}
    (h : readNativeHttpLine ending context b = .ok (line, b')) :
    b'.pending.length < b.pending.length := by
  unfold readNativeHttpLine at h
  split at h
  · cases h
  · cases h
  next line' rest hread =>
    obtain ⟨rfl, rfl⟩ : line' = line ∧ rest = b' := by simpa using h
    have hle := Buffered.length_pending_of_readUntil _ hread
    rw [crlfBytes, List.length_cons] at hle
    omega

/-- `ensure_native_http_buffer`. -/
def ensureNativeHttpBuffer (ending : StreamEnd) (length : ℕ) (context : String)
    (b : Buffered UInt8) : Except HttpBridgeError (Buffered UInt8) :=
  match b.ensure 4096 (by decide) length with
  | some b' => .ok b'
  | none => .error (ending.error ("HTTP connection closed before " ++ context) context)

/-- `parse_native_http_chunk_size`. -/
def parseNativeHttpChunkSize (line : Bytes) : Except HttpBridgeError ℕ :=
  match decodeText line with
  | none => .error (.invalidResponse "chunked HTTP response chunk size must be UTF-8")
  | some text =>
    let size := strTrim (cutAt ';' text)
    if size = [] then
      .error (.invalidResponse "chunked HTTP response chunk size cannot be empty")
    else
      match fromStrRadix 16 (2 ^ 64) size with
      | some n => .ok n
      | none => .error (.invalidResponse
          ("invalid chunked HTTP response chunk size: " ++ String.ofList size))

/-- `read_native_http_trailers`. -/
def readNativeHttpTrailers (ending : StreamEnd) (b : Buffered UInt8) :
    Except HttpBridgeError Unit :=
  match _hline : readNativeHttpLine ending "chunked HTTP response trailers" b with
  | .error error => .error error
  | .ok (line, rest) => if line = [] then .ok () else readNativeHttpTrailers ending rest
termination_by b.pending.length
decreasing_by exact length_pending_of_readNativeHttpLine _hline

section

variable {ending : StreamEnd} {b rest : Buffered UInt8} {line : Bytes} {error : HttpBridgeError}

theorem readNativeHttpTrailers_of_error
    (h : readNativeHttpLine ending "chunked HTTP response trailers" b = .error error) :
    readNativeHttpTrailers ending b = .error error := by
  rw [readNativeHttpTrailers]
  split
  next hline => exact congrArg _ (Except.error.inj (hline.symm.trans h))
  next hline => cases hline.symm.trans h

theorem readNativeHttpTrailers_of_ok
    (h : readNativeHttpLine ending "chunked HTTP response trailers" b = .ok (line, rest)) :
    readNativeHttpTrailers ending b =
      if line = [] then .ok () else readNativeHttpTrailers ending rest := by
  rw [readNativeHttpTrailers]
  split
  next hline => cases hline.symm.trans h
  next hline =>
    obtain ⟨rfl, rfl⟩ := Prod.mk.inj (Except.ok.inj (hline.symm.trans h))
    rfl

end

/-- The data of one chunk: what is in the buffer is passed on before more is read. -/
def readChunkData (ending : StreamEnd) (bodyLimit : Option ℕ) (remaining : ℕ)
    (b : Buffered UInt8) : BodyReader (Buffered UInt8) :=
  if remaining = 0 then pure b
  else
    match _hfill : b.refill 4096 with
    | none => throw (ending.error "HTTP connection closed before chunked response body completed"
        "chunked HTTP response body")
    | some filled => do
      let accepted := min filled.buffer.length remaining
      pushNativeHttpResponseBodyChunk bodyLimit (filled.buffer.take accepted)
      readChunkData ending bodyLimit (remaining - accepted)
        ⟨filled.buffer.drop accepted, filled.parts⟩
termination_by remaining
decreasing_by
  have hpos := List.length_pos_of_ne_nil (Buffered.refill_eq_some (by decide) _hfill).1
  omega

section

variable {ending : StreamEnd} {bodyLimit : Option ℕ} {remaining : ℕ} {b filled : Buffered UInt8}

theorem readChunkData_zero : readChunkData ending bodyLimit 0 b = pure b := by
  rw [readChunkData, if_pos rfl]

theorem readChunkData_of_none (hremaining : remaining ≠ 0) (h : b.refill 4096 = none) :
    readChunkData ending bodyLimit remaining b =
      throw (ending.error "HTTP connection closed before chunked response body completed"
        "chunked HTTP response body") := by
  rw [readChunkData, if_neg hremaining]
  split
  · rfl
  next hfill => cases hfill.symm.trans h

theorem readChunkData_of_some (hremaining : remaining ≠ 0) (h : b.refill 4096 = some filled) :
    readChunkData ending bodyLimit remaining b = (do
      let accepted := min filled.buffer.length remaining
      pushNativeHttpResponseBodyChunk bodyLimit (filled.buffer.take accepted)
      readChunkData ending bodyLimit (remaining - accepted)
        ⟨filled.buffer.drop accepted, filled.parts⟩) := by
  rw [readChunkData, if_neg hremaining]
  split
  next hfill => cases hfill.symm.trans h
  next filled' hfill =>
    obtain rfl := Option.some.inj (hfill.symm.trans h)
    rfl

theorem length_pending_of_readChunkData {delivered after : Bytes}
    (h : readChunkData ending bodyLimit remaining b delivered = (.ok b', after)) :
    b'.pending.length ≤ b.pending.length := by
  induction remaining using Nat.strong_induction_on generalizing b delivered with
  | _ remaining ih =>
    by_cases hremaining : remaining = 0
    · subst hremaining
      rw [readChunkData_zero] at h
      obtain rfl : b = b' := Except.ok.inj (congrArg Prod.fst h)
      exact le_rfl
    · cases hfill : b.refill 4096 with
      | none =>
        rw [readChunkData_of_none hremaining hfill] at h
        cases congrArg Prod.fst h
      | some =>
        obtain ⟨hne, hpending⟩ := Buffered.refill_eq_some (by decide) hfill
        have hpos := List.length_pos_of_ne_nil hne
        rw [readChunkData_of_some hremaining hfill, ExceptT.bind_apply] at h
        split at h
        next _ delivered' _ =>
          have hle := ih _ (by omega) h
          rw [← hpending]
          simp only [Buffered.pending, List.length_append, List.length_drop] at hle ⊢
          omega
        · cases congrArg Prod.fst h

end

theorem pending_of_ensureNativeHttpBuffer {length : ℕ}
    (h : ensureNativeHttpBuffer ending length context b = .ok b') :
    length ≤ b'.buffer.length ∧ b'.pending = b.pending := by
  have hspec := Buffered.ensure_spec (show 0 < 4096 by decide) length b
  unfold ensureNativeHttpBuffer at h
  split at h
  next found hfound =>
    obtain rfl := Except.ok.inj h
    rwa [hfound] at hspec
  · cases h

/-- `read_chunked_native_http_body_chunks`. -/
def readChunkedNativeHttpBodyChunks (ending : StreamEnd) (bodyLimit : Option ℕ)
    (b : Buffered UInt8) (delivered : Bytes) : Except HttpBridgeError Unit × Bytes :=
  match _hline : readNativeHttpLine ending "chunked HTTP response chunk size" b with
  | .error error => (.error error, delivered)
  | .ok (sizeLine, b₁) =>
    match parseNativeHttpChunkSize sizeLine with
    | .error error => (.error error, delivered)
    | .ok remaining =>
      if remaining = 0 then (readNativeHttpTrailers ending b₁, delivered)
      else
        match _hdata : readChunkData ending bodyLimit remaining b₁ delivered with
        | (.error error, delivered) => (.error error, delivered)
        | (.ok b₂, delivered) =>
          match _hensure : ensureNativeHttpBuffer ending 2
              "chunked HTTP response chunk terminator" b₂ with
          | .error error => (.error error, delivered)
          | .ok b₃ =>
            if b₃.buffer.take 2 ≠ crlfBytes then
              (.error (.invalidResponse "chunked HTTP response chunk missing CRLF terminator"),
                delivered)
            else
              readChunkedNativeHttpBodyChunks ending bodyLimit ⟨b₃.buffer.drop 2, b₃.parts⟩
                delivered
termination_by b.pending.length
decreasing_by
  have hline := length_pending_of_readNativeHttpLine _hline
  have hdata := length_pending_of_readChunkData _hdata
  obtain ⟨-, hensure⟩ := pending_of_ensureNativeHttpBuffer _hensure
  rw [← hensure] at hdata
  simp only [Buffered.pending, List.length_append, List.length_drop] at hdata hline ⊢
  omega

/-- `read_fixed_native_http_body_chunks`. -/
def readFixedNativeHttpBodyChunks (ending : StreamEnd) (bodyLimit : Option ℕ) (remaining : ℕ)
    (parts : List Bytes) : BodyReader Unit :=
  if _hpos : remaining = 0 then pure ()
  else
    match _hread : readSome (min 8192 remaining) parts with
    | none => throw (ending.error "HTTP response body ended early" "HTTP response body")
    | some (chunk, rest) => do
      pushNativeHttpResponseBodyChunk bodyLimit chunk
      readFixedNativeHttpBodyChunks ending bodyLimit (remaining - chunk.length) rest
termination_by remaining
decreasing_by
  have hpos := List.length_pos_of_ne_nil (readSome_eq_some (by omega) _hread).1
  omega

/-- `read_until_eof_native_http_body_chunks`. -/
def readUntilEofNativeHttpBodyChunks (ending : StreamEnd) (bodyLimit : Option ℕ)
    (parts : List Bytes) : BodyReader Unit :=
  match _hread : readSome 8192 parts with
  | none =>
    match ending with
    | .closed => pure ()
    | .failed error => throw (.transport ("unable to read HTTP response body: " ++ error))
  | some (chunk, rest) => do
    pushNativeHttpResponseBodyChunk bodyLimit chunk
    readUntilEofNativeHttpBodyChunks ending bodyLimit rest
termination_by parts.flatten.length
decreasing_by
  obtain ⟨hne, -, hflatten⟩ := readSome_eq_some (by decide) _hread
  have hpos := List.length_pos_of_ne_nil hne
  rw [hflatten, List.length_append]
  omega

section

variable {ending : StreamEnd} {bodyLimit : Option ℕ} {b b₁ b₂ b₃ : Buffered UInt8}
  {delivered after sizeLine : Bytes} {remaining : ℕ} {parts rest : List Bytes} {chunk : Bytes}
  {error : HttpBridgeError}

theorem readChunked_of_line_error
    (h : readNativeHttpLine ending "chunked HTTP response chunk size" b = .error error) :
    readChunkedNativeHttpBodyChunks ending bodyLimit b delivered = (.error error, delivered) := by
  rw [readChunkedNativeHttpBodyChunks]
  split
  next hline => rw [Except.error.inj (hline.symm.trans h)]
  next hline => cases hline.symm.trans h

/-- With the size line read, it depends on the size. -/
theorem readChunked_of_line
    (h : readNativeHttpLine ending "chunked HTTP response chunk size" b = .ok (sizeLine, b₁)) :
    readChunkedNativeHttpBodyChunks ending bodyLimit b delivered =
      match parseNativeHttpChunkSize sizeLine with
      | .error error => (.error error, delivered)
      | .ok remaining =>
        if remaining = 0 then (readNativeHttpTrailers ending b₁, delivered)
        else
          match readChunkData ending bodyLimit remaining b₁ delivered with
          | (.error error, delivered) => (.error error, delivered)
          | (.ok b₂, delivered) =>
            match ensureNativeHttpBuffer ending 2 "chunked HTTP response chunk terminator" b₂ with
            | .error error => (.error error, delivered)
            | .ok b₃ =>
              if b₃.buffer.take 2 ≠ crlfBytes then
                (.error (.invalidResponse "chunked HTTP response chunk missing CRLF terminator"),
                  delivered)
              else
                readChunkedNativeHttpBodyChunks ending bodyLimit ⟨b₃.buffer.drop 2, b₃.parts⟩
                  delivered := by
  rw [readChunkedNativeHttpBodyChunks]
  split
  next hline => cases hline.symm.trans h
  next hline =>
    obtain ⟨rfl, rfl⟩ := Prod.mk.inj (Except.ok.inj (hline.symm.trans h))
    cases parseNativeHttpChunkSize _ with
    | error => rfl
    | ok =>
      refine if_congr Iff.rfl rfl ?_
      split
      next hdata => rw [hdata]
      next hdata =>
        rw [hdata]
        dsimp only
        split
        next hensure => rw [hensure]
        next hensure => rw [hensure]

theorem readFixed_zero :
    readFixedNativeHttpBodyChunks ending bodyLimit 0 parts = pure () := by
  rw [readFixedNativeHttpBodyChunks, dif_pos rfl]

theorem readFixed_of_none (hremaining : remaining ≠ 0)
    (h : readSome (min 8192 remaining) parts = none) :
    readFixedNativeHttpBodyChunks ending bodyLimit remaining parts =
      throw (ending.error "HTTP response body ended early" "HTTP response body") := by
  rw [readFixedNativeHttpBodyChunks, dif_neg hremaining]
  split
  · rfl
  next hread => cases hread.symm.trans h

theorem readFixed_of_some (hremaining : remaining ≠ 0)
    (h : readSome (min 8192 remaining) parts = some (chunk, rest)) :
    readFixedNativeHttpBodyChunks ending bodyLimit remaining parts = (do
      pushNativeHttpResponseBodyChunk bodyLimit chunk
      readFixedNativeHttpBodyChunks ending bodyLimit (remaining - chunk.length) rest) := by
  rw [readFixedNativeHttpBodyChunks, dif_neg hremaining]
  split
  next hread => cases hread.symm.trans h
  next hread =>
    obtain ⟨rfl, rfl⟩ := Prod.mk.inj (Option.some.inj (hread.symm.trans h))
    rfl

theorem readUntilEof_of_none (h : readSome 8192 parts = none) :
    readUntilEofNativeHttpBodyChunks ending bodyLimit parts =
      match ending with
      | .closed => pure ()
      | .failed error => throw (.transport ("unable to read HTTP response body: " ++ error)) := by
  rw [readUntilEofNativeHttpBodyChunks.eq_def]
  split
  · rfl
  next hread => cases hread.symm.trans h

theorem readUntilEof_of_some (h : readSome 8192 parts = some (chunk, rest)) :
    readUntilEofNativeHttpBodyChunks ending bodyLimit parts = (do
      pushNativeHttpResponseBodyChunk bodyLimit chunk
      readUntilEofNativeHttpBodyChunks ending bodyLimit rest) := by
  rw [readUntilEofNativeHttpBodyChunks.eq_def]
  split
  next hread => cases hread.symm.trans h
  next hread =>
    obtain ⟨rfl, rfl⟩ := Prod.mk.inj (Option.some.inj (hread.symm.trans h))
    rfl

end

/-- `read_native_http_response_body_chunks`. -/
def readNativeHttpResponseBodyChunks (ending : StreamEnd) (bodyLimit : Option ℕ)
    (head : NativeHttpResponseHead) (parts : List Bytes) : BodyReader Unit :=
  if head.chunked then
    readChunkedNativeHttpBodyChunks ending bodyLimit ⟨head.bodyPrefix, parts⟩
  else
    match head.contentLength with
    | some length => do
      let accepted := min head.bodyPrefix.length length
      pushNativeHttpResponseBodyChunk bodyLimit (head.bodyPrefix.take accepted)
      readFixedNativeHttpBodyChunks ending bodyLimit (length - accepted) parts
    | none => do
      pushNativeHttpResponseBodyChunk bodyLimit head.bodyPrefix
      readUntilEofNativeHttpBodyChunks ending bodyLimit parts

/-- The head, `read_native_http_response_body` behind it, and what the consumer was given. The
worker sets no limit for the body, the gateway does. -/
def readNativeHttpResponse (ending : StreamEnd) (bodyLimit : Option ℕ) (parts : List Bytes) :
    Except HttpBridgeError HttpResponse × Bytes :=
  match readNativeHttpResponseHead ending parts with
  | .error error => (.error error, [])
  | .ok (head, rest) =>
    match readNativeHttpResponseBodyChunks ending bodyLimit head rest [] with
    | (.error error, delivered) => (.error error, delivered)
    | (.ok (), delivered) => (HttpResponse.new head.status head.headers [], delivered)

end WasmHost

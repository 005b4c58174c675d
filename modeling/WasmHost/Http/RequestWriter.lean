import WasmHost.Http.Url
import WasmHost.Lib.Http1

/-!
# Requests on the wire

`write_native_http_request` and `write_gateway_endpoint_request` put a request on the wire line by
line, with the texts of the URL and of the headers as they are. `onlyRequest_iff` says for which
requests a reader of HTTP/1.1 finds in these bytes that one request and nothing else.
-/

namespace WasmHost

open List

open Http1

/-- `write_http_line`: the text as it is formatted. -/
def writeHttpLine (line : Text) : Bytes := encodeText line

def crlfText : Text := "\r\n".toList

def decimal (n : ℕ) : Text := Nat.toDigits 10 n

def lowerHex (n : ℕ) : Text := Nat.toDigits 16 n

/-- The chunks that a body writer passes on: `write_chunk_blocking` drops the empty ones. -/
def streamedChunks (written : List Bytes) : List Bytes := written.filter fun chunk => chunk ≠ []

/-- `write_native_http_streaming_request_body`. -/
def writeNativeHttpStreamingRequestBody (chunks : List Bytes) : Bytes :=
  (chunks.flatMap fun chunk =>
    writeHttpLine (lowerHex chunk.length ++ crlfText) ++ chunk ++ writeHttpLine crlfText) ++
    writeHttpLine ("0".toList ++ crlfText ++ crlfText)

/-- The headers that the writer leaves out, since it says itself how the message is framed. -/
def HttpHeader.HopByHop (header : HttpHeader) : Prop :=
  header.name = "connection".toList ∨ header.name = "content-length".toList ∨
    header.name = "transfer-encoding".toList

/-- Hop-by-hop headers can be recognised. -/
instance (header : HttpHeader) : Decidable header.HopByHop :=
  inferInstanceAs (Decidable (_ ∨ _ ∨ _))

/-- `write_native_http_request`. `streamed` holds the chunks of a streaming body. -/
def writeNativeHttpRequest (streamed : Option (List Bytes)) (request : HttpRequest)
    (url : NativeHttpUrl) : Bytes :=
  writeHttpLine (request.method ++ " ".toList ++ url.requestTarget ++ " HTTP/1.1".toList ++
    crlfText) ++
  (if request.headers.any fun header => header.name = "host".toList then []
    else writeHttpLine ("Host: ".toList ++ url.authority ++ crlfText)) ++
  (request.headers.flatMap fun header =>
    if header.HopByHop then []
    else writeHttpLine (header.name ++ ": ".toList ++ header.value ++ crlfText)) ++
  writeHttpLine ("Connection: close".toList ++ crlfText) ++
  match streamed with
  | some chunks =>
    writeHttpLine ("Transfer-Encoding: chunked".toList ++ crlfText ++ crlfText) ++
      writeNativeHttpStreamingRequestBody chunks
  | none =>
    writeHttpLine ("Content-Length: ".toList ++ decimal request.body.length ++ crlfText ++
      crlfText) ++ request.body

/-- `write_gateway_stream_frame_to_http` for a frame that is `json` as a text. -/
def writeGatewayStreamFrameToHttp (json : Bytes) : Bytes :=
  let data := json ++ [10]
  writeHttpLine (lowerHex data.length ++ crlfText) ++ data ++ writeHttpLine crlfText

/-- What the gateway is asked: the frames of a streaming request or the whole of it, each as the
JSON text that the serializer makes. -/
inductive GatewayBody
  | streaming (frames : List Bytes)
  | buffered (json : Bytes)

/-- `write_gateway_endpoint_request`. -/
def writeGatewayEndpointRequest (body : GatewayBody) (url : NativeHttpUrl) : Bytes :=
  writeHttpLine ("POST ".toList ++ url.requestTarget ++ " HTTP/1.1".toList ++ crlfText) ++
  writeHttpLine ("Host: ".toList ++ url.authority ++ crlfText) ++
  writeHttpLine ("Accept: application/json, application/x-ndjson".toList ++ crlfText) ++
  writeHttpLine ("Connection: close".toList ++ crlfText) ++
  match body with
  | .streaming frames =>
    writeHttpLine ("Content-Type: application/x-ndjson".toList ++ crlfText) ++
      writeHttpLine ("Transfer-Encoding: chunked".toList ++ crlfText ++ crlfText) ++
      frames.flatMap writeGatewayStreamFrameToHttp ++
      writeHttpLine ("0".toList ++ crlfText ++ crlfText)
  | .buffered json =>
    writeHttpLine ("Content-Type: application/json".toList ++ crlfText) ++
      writeHttpLine ("Content-Length: ".toList ++ decimal json.length ++ crlfText ++ crlfText) ++
      json

/-- The body of a gateway request. -/
def GatewayBody.bytes : GatewayBody → Bytes
  | .streaming frames => frames.flatMap fun frame => frame ++ [10]
  | .buffered json => json

/-! ### Texts as parts of a message -/

/-- A character that a field value must not have. -/
def IsControl (c : Char) : Prop := (c.toNat < 32 ∧ c ≠ '\t') ∨ c.toNat = 127

/-- Control characters can be recognised. -/
instance (c : Char) : Decidable (IsControl c) := inferInstanceAs (Decidable (_ ∨ _))

variable {c : Char} {b : UInt8} {t : Text} {name : Http1.Bytes} (request : HttpRequest)
    (streamed : Option (List Bytes)) {fields : List Http1.Field} (body : GatewayBody)
    {url : NativeHttpUrl}

theorem ascii_forall {Q : Char → Prop} (h : ∀ n < 128, Q (Char.ofNat n)) (hc : c.toNat < 128) :
    Q c := by
  have := h c.toNat hc
  rwa [Char.ofNat_toNat] at this

/-- A property of the bytes of a text, character by character: for an ASCII character it is one
of its only byte, and the bytes of the others all have it. -/
theorem forall_mem_encodeText_iff {P : UInt8 → Prop} {Q : Char → Prop}
    (hascii : ∀ n < 128, P (UInt8.ofNat n) ↔ Q (Char.ofNat n))
    (hbyte : ∀ b : UInt8, 128 ≤ b.toNat → P b) (hchar : ∀ c : Char, 128 ≤ c.toNat → Q c)
    (t : Text) : (∀ b ∈ encodeText t, P b) ↔ ∀ c ∈ t, Q c := by
  simp only [encodeText_eq, mem_flatMap, forall_exists_index, and_imp]
  refine ⟨fun h c hc => ?_, fun h b c hc hb => ?_⟩
  · by_cases hsmall : c.toNat < 128
    · have hb : P (UInt8.ofNat c.toNat) := by
        refine h _ c hc ?_
        rw [utf8EncodeChar_of_lt hsmall]
        exact mem_singleton_self _
      have hq := (hascii c.toNat hsmall).1 hb
      rwa [Char.ofNat_toNat] at hq
    · exact hchar c (Nat.not_lt.1 hsmall)
  · by_cases hsmall : c.toNat < 128
    · rw [utf8EncodeChar_of_lt hsmall, mem_singleton] at hb
      rw [hb, hascii c.toNat hsmall, Char.ofNat_toNat]
      exact h c hc
    · exact hbyte b (le_of_mem_utf8EncodeChar (Nat.not_lt.1 hsmall) hb)

theorem isFieldByte_of_le (h : 128 ≤ b.toNat) : isFieldByte b = true := by
  have hle : 32 ≤ b := UInt8.le_iff_toNat_le.2 (by simpa using (by omega : 32 ≤ b.toNat))
  have hne : b ≠ 127 := by
    rintro rfl
    exact absurd h (by decide)
  simp [isFieldByte, hle, hne]

theorem isBlank_of_le (h : 128 ≤ b.toNat) : isBlank b = false := by
  have hspace : b ≠ 32 := by
    rintro rfl
    exact absurd h (by decide)
  have htab : b ≠ 9 := by
    rintro rfl
    exact absurd h (by decide)
  simp [isBlank, hspace, htab]

theorem forall_isFieldByte_iff (t : Text) :
    (∀ b ∈ encodeText t, isFieldByte b = true) ↔ ∀ c ∈ t, ¬IsControl c := by
  refine forall_mem_encodeText_iff (by decide) (fun b hb => isFieldByte_of_le hb)
    (fun c hc => ?_) t
  rintro (⟨h, -⟩ | h) <;> omega

/-- The bytes of an ASCII text are its characters. -/
theorem encodeText_of_ascii (h : ∀ c ∈ t, c.toNat < 128) :
    encodeText t = t.map fun c => UInt8.ofNat c.toNat := by
  induction t with
  | nil => rfl
  | cons c t ih =>
    obtain ⟨hc, ht⟩ := forall_mem_cons.1 h
    rw [encodeText_cons, utf8EncodeChar_of_lt hc, ih ht]
    rfl

theorem lt_of_isHttpTokenChar (h : isHttpTokenChar c = true) : c.toNat < 128 := by
  rcases Bool.or_eq_true_iff.1 h with h | h
  · change ((decide (65 ≤ c.val ∧ c.val ≤ 90) ||
      decide (97 ≤ c.val) && decide (c.val ≤ 122)) ||
        decide (48 ≤ c.val) && decide (c.val ≤ 57)) = true at h
    simp only [Bool.or_eq_true, Bool.and_eq_true, decide_eq_true_eq, UInt32.le_iff_toNat_le] at h
    show c.val.toNat < 128
    change (65 ≤ c.val.toNat ∧ c.val.toNat ≤ 90 ∨ 97 ≤ c.val.toNat ∧ c.val.toNat ≤ 122) ∨
      48 ≤ c.val.toNat ∧ c.val.toNat ≤ 57 at h
    omega
  · exact (show ∀ c ∈ "!#$%&'*+-.^_`|~".toList, c.toNat < 128 by decide) c (by simpa using h)

/-- A text of token characters is a token. -/
theorem isToken_encodeText (h : IsHttpToken t) : Http1.IsToken (encodeText t) := by
  rw [encodeText_of_ascii fun c hc => lt_of_isHttpTokenChar (h.2 c hc)]
  refine ⟨by simpa using h.1, forall_mem_map.2 fun c hc => ?_⟩
  refine ascii_forall (Q := fun c => isHttpTokenChar c = true →
    isTchar (UInt8.ofNat c.toNat) = true) (by decide) (lt_of_isHttpTokenChar (h.2 c hc))
    (h.2 c hc)

/-- A trimmed text has no white space at either end. -/
theorem dropWhile_of_strTrim (h : strTrim t = t) :
    t.dropWhile isWhitespace = t ∧ t.rdropWhile isWhitespace = t := by
  have hlength : t.length ≤ (t.dropWhile isWhitespace).length := by
    have := (List.rdropWhile_prefix isWhitespace (t.dropWhile isWhitespace)).length_le
    rw [strTrim] at h
    rwa [h] at this
  have hdrop : t.dropWhile isWhitespace = t :=
    (dropWhile_suffix isWhitespace).eq_of_length_le hlength
  rw [strTrim, hdrop] at h
  exact ⟨hdrop, h⟩

/-- No byte of a character that is not white space is blank. -/
theorem isBlank_of_mem (hc : isWhitespace c = false) (hb : b ∈ String.utf8EncodeChar c) :
    isBlank b = false := by
  by_cases hsmall : c.toNat < 128
  · rw [utf8EncodeChar_of_lt hsmall, mem_singleton] at hb
    rw [hb]
    exact ascii_forall (Q := fun c => isWhitespace c = false →
      isBlank (UInt8.ofNat c.toNat) = false) (by decide) hsmall hc
  · exact isBlank_of_le (le_of_mem_utf8EncodeChar (Nat.not_lt.1 hsmall) hb)

theorem trimBlanks_encodeText (h : strTrim t = t) :
    trimBlanks (encodeText t) = encodeText t := by
  obtain ⟨hfirst, hlast⟩ := dropWhile_of_strTrim h
  have hdrop : (encodeText t).dropWhile isBlank = encodeText t := by
    cases t with
    | nil => rfl
    | cons c t =>
      have hc : isWhitespace c = false := by
        by_contra hc
        rw [dropWhile_cons_of_pos (by simpa using hc)] at hfirst
        have := (dropWhile_suffix isWhitespace (l := t)).length_le
        rw [hfirst, length_cons] at this
        omega
      obtain ⟨b, rest, hbytes⟩ := exists_cons_of_ne_nil (String.utf8EncodeChar_ne_nil (c := c))
      have hb : isBlank b = false := isBlank_of_mem hc (by simp [hbytes])
      rw [encodeText_cons, hbytes, cons_append, dropWhile_cons_of_neg (by simp [hb])]
  rw [trimBlanks, hdrop, rdropWhile_eq_self_iff]
  intro hne
  induction t using List.reverseRecOn with
  | nil => exact absurd rfl hne
  | append_singleton t c =>
    have hc : isWhitespace c = false := by
      have := rdropWhile_eq_self_iff.1 hlast (by simp)
      simpa using this
    have hsingle : encodeText [c] = String.utf8EncodeChar c := by simp [encodeText_eq]
    have hmem : (encodeText (t ++ [c])).getLast hne ∈ String.utf8EncodeChar c := by
      have hnil : encodeText [c] ≠ [] := by
        rw [hsingle]
        exact String.utf8EncodeChar_ne_nil
      have happend := encodeText_append t [c]
      have hlastEq : (encodeText (t ++ [c])).getLast hne = (encodeText [c]).getLast hnil := by
        simp only [happend]
        exact getLast_append_of_ne_nil _ hnil
      rw [hlastEq, ← hsingle]
      exact getLast_mem hnil
    simp [isBlank_of_mem hc hmem]

/-- A trimmed text can be the value of a field just when it has no control character. -/
theorem isFieldValue_encodeText_iff (h : strTrim t = t) :
    Http1.IsFieldValue (encodeText t) ↔ ∀ c ∈ t, ¬IsControl c := by
  rw [Http1.IsFieldValue, forall_isFieldByte_iff]
  exact and_iff_right (trimBlanks_encodeText h)

/-- The bytes of a lower-case name are its own canonical form. -/
theorem lower_encodeText (htoken : IsHttpToken t) (hlower : toAsciiLowercase t = t) :
    lower (encodeText t) = encodeText t := by
  have hsmall : ∀ c ∈ t, c.toNat < 128 := fun c hc => lt_of_isHttpTokenChar (htoken.2 c hc)
  rw [encodeText_of_ascii hsmall, lower, map_map]
  refine map_congr_left fun c hc => ?_
  have hcLower : c.toLower = c :=
    map_inj_left.1 (hlower.trans (map_id t).symm) c hc
  exact ascii_forall (Q := fun c => c.toLower = c →
    lowerByte (UInt8.ofNat c.toNat) = UInt8.ofNat c.toNat) (by decide) (hsmall c hc) hcLower

/-! ### The message that is written -/

/-- A field of a message with these texts. -/
def textField (name value : Text) : Http1.Field := ⟨encodeText name, encodeText value⟩

/-- A header as a field. -/
def HttpHeader.field (header : HttpHeader) : Http1.Field := textField header.name header.value

/-- The headers that are written. -/
def HttpRequest.writtenHeaders (request : HttpRequest) : List HttpHeader :=
  request.headers.filter fun header => ¬header.HopByHop

/-- The `Host` field that the writer adds when the request has none. -/
def hostField (request : HttpRequest) (url : NativeHttpUrl) : List Http1.Field :=
  if request.headers.any fun header => header.name = "host".toList then []
  else [textField "Host".toList url.authority]

def connectionField : Http1.Field := textField "Connection".toList "close".toList

def chunkedField : Http1.Field := textField "Transfer-Encoding".toList "chunked".toList

def lengthField (length : ℕ) : Http1.Field := textField "Content-Length".toList (decimal length)

theorem writeHttpLine_field (name value : Text) :
    writeHttpLine (name ++ ": ".toList ++ value ++ crlfText) =
      printField (textField name value) ++ crlf := by
  simp only [writeHttpLine, encodeText_append, printField, textField, append_assoc]
  rfl

/-! ### One request and nothing else -/

/-- The fields that say how a message is framed and whether the connection stays. -/
def FramingName (name : Http1.Bytes) : Prop :=
  name = encodeText "connection".toList ∨ name = Http1.contentLength ∨
    name = Http1.transferEncoding

/-- Names of framing fields can be recognised. -/
instance (name : Http1.Bytes) : Decidable (FramingName name) :=
  inferInstanceAs (Decidable (_ ∨ _ ∨ _))

def hostName : Http1.Bytes := encodeText "host".toList

/-- A reader finds in the bytes one request and nothing behind it, with this method, target and
body, one `Host` field, and besides the framing these fields. -/
def OnlyRequest (bytes : Bytes) (method target : Text) (fields : List Http1.Field)
    (body : Bytes) : Prop :=
  ∃ parsed : Http1.Request, Http1.readRequest bytes = some (parsed, []) ∧
    parsed.method = encodeText method ∧ parsed.target = encodeText target ∧
    (Http1.valuesOf hostName parsed.fields).length = 1 ∧
    (parsed.fields.filter fun field => ¬FramingName field.name) = fields ∧ parsed.body = body

/-- The values of a field do not depend on fields of other names. -/
theorem valuesOf_filter {p : Http1.Field → Bool} (fields : List Http1.Field)
    (hp : ∀ field ∈ fields, field.name = name → p field = true) :
    valuesOf name (fields.filter p) = valuesOf name fields := by
  rw [valuesOf, valuesOf, filter_filter]
  congr 1
  refine filter_congr fun field hfield => ?_
  by_cases hname : field.name = name
  · simp [hname, hp field hfield hname]
  · simp [hname]

/-- A printed message is one request just when its target, its `Host` and its values are as the
grammar has them. -/
theorem onlyRequest_print_iff {method : Text} (target : Text) {printed : List Http1.Field}
    {data body : Bytes} (hmethod : IsHttpToken method)
    (hnames : ∀ field ∈ printed, Http1.IsToken field.name)
    (hframing : ∀ field ∈ printed, FramingName (lower field.name) →
      Http1.IsFieldValue field.value)
    (hbody : readRequestBody (printed.map Http1.Field.canonical) data = some (body, [])) :
    OnlyRequest (printHead (encodeText method) (encodeText target) printed ++ data) method
        target ((printed.map Http1.Field.canonical).filter fun field => ¬FramingName field.name)
        body ↔
      Http1.IsOriginForm (encodeText target) ∧
        (valuesOf hostName (printed.map Http1.Field.canonical)).length = 1 ∧
        ∀ field ∈ printed, Http1.IsFieldValue field.value := by
  have hhost : ∀ fields : List Http1.Field, valuesOf hostName
      (fields.filter fun field => ¬FramingName field.name) = valuesOf hostName fields := by
    refine fun fields => valuesOf_filter fields fun field _ hname => ?_
    rw [hname]
    decide
  constructor
  · rintro ⟨parsed, hread, -, htarget, hone, hfields, -⟩
    obtain ⟨-, horigin, hvalues⟩ := printable_of_readRequest hread
    refine ⟨htarget ▸ horigin, ?_, fun field hfield => ?_⟩
    · rw [← hhost, ← hfields, hhost, hone]
    · by_cases hname : FramingName (lower field.name)
      · exact hframing field hfield hname
      · have hmem :
            field.canonical ∈ parsed.fields.filter fun field => ¬FramingName field.name := by
          rw [hfields]
          exact mem_filter.2 ⟨mem_map_of_mem hfield,
            decide_eq_true hname⟩
        exact hvalues field.canonical (mem_of_mem_filter hmem)
  · rintro ⟨horigin, hone, hvalues⟩
    have hread := readRequest_print (isToken_encodeText hmethod) horigin
      (fun field hfield => ⟨hnames field hfield, hvalues field hfield⟩) hbody
    exact ⟨_, hread, rfl, rfl, hone, rfl, rfl⟩

/-! ### The native dispatcher -/

/-- The fields of the native dispatcher. -/
def nativeFields (streamed : Option (List Bytes)) (request : HttpRequest) (url : NativeHttpUrl) :
    List Http1.Field :=
  hostField request url ++ request.writtenHeaders.map HttpHeader.field ++
    [connectionField, if streamed.isSome then chunkedField else lengthField request.body.length]

theorem lt_of_mem_toDigits {radix : ℕ} (hradix : 1 < radix) (hmax : radix ≤ 16) (n : ℕ) :
    ∀ c ∈ Nat.toDigits radix n, c.toNat < 128 := by
  have hdigit : ∀ digit < 16, (Nat.digitChar digit).toNat < 128 := by decide
  induction n using Nat.strongRecOn with
  | ind n ih =>
    rw [Nat.toDigits_eq_if hradix]
    split
    next hsmall => simpa using hdigit n (by omega)
    next hlarge =>
      intro c hc
      rcases mem_append.1 hc with hc | hc
      · exact ih (n / radix) (Nat.div_lt_self (by omega) hradix) c hc
      · rw [mem_singleton.1 hc]
        exact hdigit _ ((Nat.mod_lt n (by omega)).trans_le hmax)

theorem encodeText_lowerHex (n : ℕ) : encodeText (lowerHex n) = printNumber 16 n :=
  encodeText_of_ascii (lt_of_mem_toDigits (by decide) (by decide) n)

theorem encodeText_decimal (n : ℕ) : encodeText (decimal n) = printNumber 10 n :=
  encodeText_of_ascii (lt_of_mem_toDigits (by decide) (by decide) n)

theorem encodeText_crlfText : encodeText crlfText = crlf := by decide

/-- A chunk as the writers put it on the wire. -/
theorem writeChunk_eq (chunk : Bytes) :
    writeHttpLine (lowerHex chunk.length ++ crlfText) ++ chunk ++ writeHttpLine crlfText =
      printChunk chunk := by
  simp only [writeHttpLine, encodeText_append, encodeText_lowerHex, encodeText_crlfText,
    printChunk, append_assoc]

theorem writeLastChunk_eq : writeHttpLine ("0".toList ++ crlfText ++ crlfText) =
    lastChunk := by
  decide

/-- The request line in front of the fields. -/
theorem printHead_eq (method target : Text) (fields : List Http1.Field) :
    printHead (encodeText method) (encodeText target) fields =
      writeHttpLine (method ++ " ".toList ++ target ++ " HTTP/1.1".toList ++ crlfText) ++
        (printFields fields ++ crlf) := by
  have hspace : encodeText " ".toList = [32] := by decide
  have hversion : encodeText " HTTP/1.1".toList = 32 :: version := by decide
  simp only [writeHttpLine, encodeText_append, hspace, hversion, encodeText_crlfText,
    printHead, append_assoc, cons_append, nil_append]

/-- The line of the length with the empty line behind it. -/
theorem writeHttpLine_length (length : ℕ) :
    writeHttpLine ("Content-Length: ".toList ++ decimal length ++ crlfText ++ crlfText) =
      printField (lengthField length) ++ (crlf ++ crlf) := by
  simp only [writeHttpLine, encodeText_append, printField, lengthField, textField,
    encodeText_crlfText, append_assoc]
  rfl

theorem printFields_append (first second : List Http1.Field) :
    printFields (first ++ second) = printFields first ++ printFields second := by
  simp [printFields]

theorem printFields_hostField (url : NativeHttpUrl) :
    printFields (hostField request url) =
      if request.headers.any fun header => header.name = "host".toList then []
      else writeHttpLine ("Host: ".toList ++ url.authority ++ crlfText) := by
  unfold hostField
  split
  · rfl
  · rw [printFields, flatMap_singleton, ← writeHttpLine_field]
    rfl

theorem printFields_writtenHeaders :
    printFields (request.writtenHeaders.map HttpHeader.field) =
      request.headers.flatMap fun header =>
        if header.HopByHop then []
        else writeHttpLine (header.name ++ ": ".toList ++ header.value ++ crlfText) := by
  rw [HttpRequest.writtenHeaders, printFields, flatMap_map]
  induction request.headers with
  | nil => rfl
  | cons header headers ih =>
    rw [filter_cons, flatMap_cons]
    by_cases hhop : header.HopByHop
    · simpa [hhop] using ih
    · have hkeep : decide (¬header.HopByHop) = true := decide_eq_true hhop
      rw [if_pos hkeep, flatMap_cons, ih, if_neg hhop, writeHttpLine_field]
      rfl

theorem writeNativeHttpRequest_eq (request : HttpRequest) (url : NativeHttpUrl) :
    writeNativeHttpRequest streamed request url =
      printHead (encodeText request.method) (encodeText url.requestTarget)
        (nativeFields streamed request url) ++
      match streamed with
      | some chunks => chunks.flatMap printChunk ++ lastChunk
      | none => request.body := by
  have hconnection : printField connectionField ++ crlf =
      writeHttpLine ("Connection: close".toList ++ crlfText) := by decide
  have hchunked : writeHttpLine ("Transfer-Encoding: chunked".toList ++ crlfText ++ crlfText) =
      printField chunkedField ++ (crlf ++ crlf) := by decide
  rw [printHead_eq, nativeFields, printFields_append, printFields_append, printFields_hostField,
    printFields_writtenHeaders]
  cases streamed with
  | none =>
    simp only [writeNativeHttpRequest]
    rw [writeHttpLine_length, ← hconnection]
    simp only [printFields, flatMap_cons, flatMap_nil, Option.isSome_none,
      Bool.false_eq_true, if_false, append_assoc, append_nil]
  | some =>
    simp only [writeNativeHttpRequest, writeNativeHttpStreamingRequestBody, writeChunk_eq]
    rw [hchunked, ← hconnection, writeLastChunk_eq]
    simp only [printFields, flatMap_cons, flatMap_nil, Option.isSome_some, if_true,
      append_assoc, append_nil]

/-! ### Reading it back -/

/-- The requests that come out on the wire as themselves: the target is a path and a query, no
more than one `Host` is given, the authority can be its value where none is given, and no header
has a control character in its value. -/
def WireSafe (request : HttpRequest) (url : NativeHttpUrl) : Prop :=
  Http1.IsOriginForm (encodeText url.requestTarget) ∧
    request.headers.countP (fun header => header.name = "host".toList) ≤ 1 ∧
    ((request.headers.any fun header => header.name = "host".toList) = false →
      Http1.IsFieldValue (encodeText url.authority)) ∧
    ∀ header ∈ request.writtenHeaders, ∀ c ∈ header.value, ¬IsControl c

theorem HttpHeader.canonical_field (header : HttpHeader) :
    header.field.canonical = header.field := by
  rw [Http1.Field.canonical, HttpHeader.field, textField,
    lower_encodeText header.name_token header.name_lower]

theorem HttpHeader.framingName_iff (header : HttpHeader) :
    FramingName header.field.name ↔ header.HopByHop := by
  have hlength : contentLength = encodeText "content-length".toList := by decide
  have hcoding : transferEncoding = encodeText "transfer-encoding".toList := by decide
  have hinj : ∀ t : Text, header.field.name = encodeText t ↔ header.name = t := fun t =>
    ⟨fun h => encodeText_injective h, fun h => congrArg encodeText h⟩
  rw [FramingName, hlength, hcoding, hinj, hinj, hinj, HttpHeader.HopByHop]

theorem valuesOf_append (name : Http1.Bytes) (first second : List Http1.Field) :
    valuesOf name (first ++ second) =
      valuesOf name first ++ valuesOf name second := by
  simp [valuesOf]

theorem valuesOf_eq_nil (h : ∀ field ∈ fields, field.name ≠ name) :
    valuesOf name fields = [] := by
  rw [valuesOf, filter_eq_nil_iff.2 (by simpa using h), map_nil]

/-- The written headers do not say how the message is framed. -/
theorem valuesOf_writtenHeaders (hname : FramingName name) :
    valuesOf name (request.writtenHeaders.map HttpHeader.field) = [] := by
  refine valuesOf_eq_nil fun field hfield => ?_
  obtain ⟨header, hheader, rfl⟩ := mem_map.1 hfield
  rintro rfl
  have hnot : ¬header.HopByHop := by simpa using of_mem_filter hheader
  exact hnot (header.framingName_iff.1 hname)

theorem canonical_hostField (url : NativeHttpUrl) :
    (hostField request url).map Http1.Field.canonical =
      if request.headers.any fun header => header.name = "host".toList then []
      else [⟨hostName, encodeText url.authority⟩] := by
  have hname : lower (encodeText "Host".toList) = hostName := by decide
  unfold hostField
  split
  · rfl
  · show [Http1.Field.mk (lower (encodeText "Host".toList)) _] = _
    rw [hname]
    rfl

theorem valuesOf_hostField (url : NativeHttpUrl) (hname : FramingName name) :
    valuesOf name ((hostField request url).map Http1.Field.canonical) = [] := by
  have hne : hostName ≠ name := by
    rintro rfl
    exact absurd hname (by decide)
  rw [canonical_hostField]
  split
  · rfl
  · simp [valuesOf, hne]

theorem canonical_nativeFields (request : HttpRequest) (url : NativeHttpUrl) :
    (nativeFields streamed request url).map Http1.Field.canonical =
      (hostField request url).map Http1.Field.canonical ++
        request.writtenHeaders.map HttpHeader.field ++
        [connectionField.canonical,
          if streamed.isSome then chunkedField.canonical
          else (lengthField request.body.length).canonical] := by
  simp only [nativeFields, map_append, map_map, map_cons, map_nil,
    Function.comp_def, HttpHeader.canonical_field, apply_ite Http1.Field.canonical]

/-- How many `Host` fields are written. -/
theorem length_valuesOf_host (request : HttpRequest) (url : NativeHttpUrl) :
    (valuesOf hostName ((nativeFields streamed request url).map
        Http1.Field.canonical)).length = 1 ↔
      request.headers.countP (fun header => header.name = "host".toList) ≤ 1 := by
  have hgiven : (valuesOf hostName (request.writtenHeaders.map HttpHeader.field)).length =
      request.headers.countP fun header => header.name = "host".toList := by
    rw [valuesOf, length_map, ← countP_eq_length_filter, countP_map,
      HttpRequest.writtenHeaders, countP_filter]
    refine countP_congr fun header _ => ?_
    have hname : header.field.name = hostName ↔ header.name = "host".toList :=
      ⟨fun h => encodeText_injective h, fun h => congrArg encodeText h⟩
    simp only [Function.comp_apply, hname, Bool.and_eq_true, decide_eq_true_eq,
      and_iff_left_iff_imp]
    intro hhost hhop
    rw [HttpHeader.HopByHop, hhost] at hhop
    exact absurd hhop (by decide)
  have hframing : valuesOf hostName [connectionField.canonical,
      if streamed.isSome then chunkedField.canonical
      else (lengthField request.body.length).canonical] = [] := by
    have hlength : (lengthField request.body.length).canonical.name ≠ hostName := by
      show lower (encodeText "Content-Length".toList) ≠ hostName
      decide
    refine valuesOf_eq_nil (forall_mem_cons.2 ⟨by decide, forall_mem_singleton.2 ?_⟩)
    split
    · decide
    · exact hlength
  rw [canonical_nativeFields, valuesOf_append, valuesOf_append, hframing, append_nil,
    length_append, hgiven, canonical_hostField]
  split
  next hany =>
    have hpos : 0 < request.headers.countP fun header => header.name = "host".toList := by
      obtain ⟨header, hmem, hname⟩ := any_eq_true.1 hany
      exact countP_pos_iff.2 ⟨header, hmem, hname⟩
    simp only [valuesOf, filter_nil, map_nil, length_nil]
    omega
  next hnone =>
    have hzero : (request.headers.countP fun header => header.name = "host".toList) = 0 := by
      rw [countP_eq_zero]
      intro header hmem hname
      exact hnone (any_eq_true.2 ⟨header, hmem, hname⟩)
    rw [hzero]
    exact iff_of_true (by simp [valuesOf]) (Nat.zero_le 1)

/-- The body that a request carries. -/
def requestBody (written : Option (List Bytes)) (request : HttpRequest) : Bytes :=
  match written with
  | some chunks => chunks.flatten
  | none => request.body

theorem flatten_streamedChunks (written : List Bytes) :
    (streamedChunks written).flatten = written.flatten :=
  flatten_filter_ne_nil

/-- A message whose only framing field is a length. -/
theorem readRequestBody_length (body : Bytes)
    (hcoding : valuesOf transferEncoding fields = [])
    (hlength : valuesOf contentLength fields = [printNumber 10 body.length]) :
    readRequestBody fields body = some (body, []) := by
  rw [readRequestBody, hcoding, hlength]
  simp [readNumber_print]

/-- A message whose only framing field is the chunked coding. -/
theorem readRequestBody_chunked {chunks : List Bytes} (hchunks : ∀ chunk ∈ chunks, chunk ≠ [])
    (hcoding : valuesOf transferEncoding fields = [chunkedCoding])
    (hlength : valuesOf contentLength fields = []) :
    readRequestBody fields (chunks.flatMap printChunk ++ lastChunk) =
      some (chunks.flatten, []) := by
  have hlower : lower chunkedCoding = chunkedCoding := by decide
  have hread := readChunked_print hchunks []
  rw [append_nil] at hread
  rw [readRequestBody, hcoding, hlength]
  simp only [hlower, if_true, hread]

/-- The framing fields frame the body. -/
theorem readRequestBody_native (written : Option (List Bytes)) (request : HttpRequest)
    (url : NativeHttpUrl) :
    readRequestBody ((nativeFields (written.map streamedChunks) request url).map
        Http1.Field.canonical)
      (match written.map streamedChunks with
        | some chunks => chunks.flatMap printChunk ++ lastChunk
        | none => request.body) = some (requestBody written request, []) := by
  have hcodingName : FramingName transferEncoding := .inr (.inr rfl)
  have hlengthName : FramingName contentLength := .inr (.inl rfl)
  have hvalues : ∀ name, FramingName name → valuesOf name
      ((nativeFields (written.map streamedChunks) request url).map Http1.Field.canonical) =
        valuesOf name [connectionField.canonical,
          if (written.map streamedChunks).isSome then chunkedField.canonical
          else (lengthField request.body.length).canonical] := by
    intro name hname
    rw [canonical_nativeFields, valuesOf_append, valuesOf_append, valuesOf_hostField _ _ hname,
      valuesOf_writtenHeaders _ hname]
    rfl
  cases written with
  | none =>
    have hfield : (lengthField request.body.length).canonical =
        ⟨contentLength, printNumber 10 request.body.length⟩ := by
      rw [Http1.Field.canonical, lengthField, textField, encodeText_decimal]
      congr 1
    refine readRequestBody_length request.body ?_ ?_
    · rw [hvalues _ hcodingName]
      simp only [Option.map_none, Option.isSome_none, Bool.false_eq_true, if_false, hfield]
      have hne : contentLength ≠ transferEncoding := by decide
      exact valuesOf_eq_nil (forall_mem_cons.2
        ⟨by decide, forall_mem_singleton.2 hne⟩)
    · rw [hvalues _ hlengthName]
      simp only [Option.map_none, Option.isSome_none, Bool.false_eq_true, if_false, hfield]
      rfl
  | some chunks =>
    have hne : ∀ chunk ∈ streamedChunks chunks, chunk ≠ [] := fun chunk hchunk => by
      simpa using of_mem_filter hchunk
    show readRequestBody _ _ = some (chunks.flatten, [])
    rw [← flatten_streamedChunks]
    refine readRequestBody_chunked hne ?_ ?_
    · rw [hvalues _ hcodingName]
      show valuesOf _ [connectionField.canonical, chunkedField.canonical] = _
      decide
    · rw [hvalues _ hlengthName]
      show valuesOf _ [connectionField.canonical, chunkedField.canonical] = _
      decide

theorem forall_nativeFields_iff {streamed : Option (List Bytes)} {request : HttpRequest}
    {P : Http1.Field → Prop} :
    (∀ field ∈ nativeFields streamed request url, P field) ↔
      ((request.headers.any fun header => header.name = "host".toList) = false →
        P (textField "Host".toList url.authority)) ∧
      (∀ header ∈ request.writtenHeaders, P header.field) ∧ P connectionField ∧
        P (if streamed.isSome then chunkedField else lengthField request.body.length) := by
  simp only [nativeFields, forall_mem_append, forall_mem_map, forall_mem_cons,
    not_mem_nil, false_imp_iff, implies_true, and_true, and_assoc]
  refine and_congr_left' ?_
  unfold hostField
  split
  next h => exact iff_of_true (by simp) fun hfalse => absurd (h.symm.trans hfalse) (by simp)
  next h =>
    exact ⟨fun hp _ => hp _ (mem_singleton_self _),
      fun hp => forall_mem_singleton.2 (hp (Bool.eq_false_iff.2 h))⟩

/-- Besides the framing, the `Host` that is added and the headers that are written are left. -/
theorem filter_nativeFields (request : HttpRequest) (url : NativeHttpUrl) :
    ((nativeFields streamed request url).map Http1.Field.canonical).filter
        (fun field => ¬FramingName field.name) =
      (hostField request url).map Http1.Field.canonical ++
        request.writtenHeaders.map HttpHeader.field := by
  have hhost : ((hostField request url).map Http1.Field.canonical).filter
      (fun field => ¬FramingName field.name) =
        (hostField request url).map Http1.Field.canonical := by
    rw [filter_eq_self, canonical_hostField]
    split
    · simp
    · exact forall_mem_singleton.2 (by show decide (¬FramingName hostName) = true; decide)
  have hwritten : (request.writtenHeaders.map HttpHeader.field).filter
      (fun field => ¬FramingName field.name) = request.writtenHeaders.map HttpHeader.field := by
    rw [filter_eq_self]
    refine forall_mem_map.2 fun header hheader => ?_
    rw [decide_eq_true_eq, header.framingName_iff]
    simpa using of_mem_filter hheader
  have hframing : [connectionField.canonical, if streamed.isSome then chunkedField.canonical
      else (lengthField request.body.length).canonical].filter
        (fun field => ¬FramingName field.name) = [] := by
    have hlength : FramingName (lengthField request.body.length).canonical.name := by
      show FramingName (lower (encodeText "Content-Length".toList))
      decide
    refine filter_eq_nil_iff.2 (forall_mem_cons.2
      ⟨by decide, forall_mem_singleton.2 ?_⟩)
    split
    · decide
    · simpa using hlength
  rw [canonical_nativeFields, filter_append, filter_append, hhost, hwritten, hframing, append_nil]

theorem isFieldValue_framing (length : ℕ) :
    Http1.IsFieldValue (if streamed.isSome then chunkedField else lengthField length).value := by
  split
  · decide
  · rw [lengthField, textField, encodeText_decimal]
    exact isFieldValue_printNumber (by decide) (by decide) length

/-- For every request and URL, buffered or in chunks: the bytes of the native dispatcher are that
one request just when it is safe on the wire. -/
theorem onlyRequest_native_iff (written : Option (List Bytes)) (request : HttpRequest)
    (url : NativeHttpUrl) :
    OnlyRequest (writeNativeHttpRequest (written.map streamedChunks) request url) request.method
        url.requestTarget
        ((hostField request url).map Http1.Field.canonical ++
          request.writtenHeaders.map HttpHeader.field)
        (requestBody written request) ↔ WireSafe request url := by
  let streamed := written.map streamedChunks
  have hhost : Http1.IsToken (encodeText "Host".toList) := by decide
  have hnames : ∀ field ∈ nativeFields streamed request url, Http1.IsToken field.name := by
    refine forall_nativeFields_iff.2 ⟨fun _ => hhost,
      fun header _ => isToken_encodeText header.name_token, by decide, ?_⟩
    split
    · decide
    · show Http1.IsToken (encodeText "Content-Length".toList)
      decide
  have hframing : ∀ field ∈ nativeFields streamed request url,
      FramingName (lower field.name) → Http1.IsFieldValue field.value := by
    refine forall_nativeFields_iff.2 ⟨fun _ hname => absurd hname ?_,
      fun header hheader hname => ?_,
      fun _ => by decide, fun _ => isFieldValue_framing streamed request.body.length⟩
    · show ¬FramingName (lower (encodeText "Host".toList))
      decide
    · have hnot : ¬header.HopByHop := by simpa using of_mem_filter hheader
      have hcanonical : lower header.field.name = header.field.name :=
        congrArg Http1.Field.name header.canonical_field
      rw [hcanonical] at hname
      exact absurd (header.framingName_iff.1 hname) hnot
  have hprint := onlyRequest_print_iff url.requestTarget request.method_token hnames
    hframing (readRequestBody_native written request url)
  rw [filter_nativeFields, ← writeNativeHttpRequest_eq] at hprint
  rw [hprint, length_valuesOf_host, forall_nativeFields_iff, WireSafe]
  have hvalue : ∀ header : HttpHeader, Http1.IsFieldValue header.field.value ↔
      ∀ c ∈ header.value, ¬IsControl c :=
    fun header => isFieldValue_encodeText_iff header.value_trimmed
  have hconnection : Http1.IsFieldValue connectionField.value := by decide
  simp only [hvalue, hconnection, isFieldValue_framing, and_true]
  rfl

/-! ### The gateway endpoint -/

def postMethod : Text := "POST".toList

/-- The type of a gateway body. -/
def GatewayBody.contentType : GatewayBody → Text
  | .streaming _ => "application/x-ndjson".toList
  | .buffered _ => "application/json".toList

def acceptField : Http1.Field :=
  textField "Accept".toList "application/json, application/x-ndjson".toList

/-- The field of the type. -/
def contentTypeField (body : GatewayBody) : Http1.Field :=
  textField "Content-Type".toList body.contentType

/-- The field of the framing. -/
def GatewayBody.framingField : GatewayBody → Http1.Field
  | .streaming _ => chunkedField
  | .buffered json => lengthField json.length

/-- The fields of the gateway request. -/
def gatewayFields (body : GatewayBody) (url : NativeHttpUrl) : List Http1.Field :=
  [textField "Host".toList url.authority, acceptField, connectionField, contentTypeField body,
    body.framingField]

/-- What is behind the fields. -/
def GatewayBody.data : GatewayBody → Bytes
  | .streaming frames =>
    (frames.map fun frame => frame ++ [10]).flatMap Http1.printChunk ++ Http1.lastChunk
  | .buffered json => json

theorem writeGatewayEndpointRequest_eq (url : NativeHttpUrl) :
    writeGatewayEndpointRequest body url =
      printHead (encodeText postMethod) (encodeText url.requestTarget)
        (gatewayFields body url) ++ body.data := by
  have hhost : writeHttpLine ("Host: ".toList ++ url.authority ++ crlfText) =
      printField (textField "Host".toList url.authority) ++ crlf := by
    rw [← writeHttpLine_field]
    rfl
  have haccept : writeHttpLine ("Accept: application/json, application/x-ndjson".toList ++
      crlfText) = printField acceptField ++ crlf := by decide
  have hconnection : writeHttpLine ("Connection: close".toList ++ crlfText) =
      printField connectionField ++ crlf := by decide
  have hline : writeHttpLine ("POST ".toList ++ url.requestTarget ++ " HTTP/1.1".toList ++
      crlfText) = writeHttpLine (postMethod ++ " ".toList ++ url.requestTarget ++
        " HTTP/1.1".toList ++ crlfText) := rfl
  rw [printHead_eq]
  cases body with
  | streaming frames =>
    have htype : writeHttpLine ("Content-Type: application/x-ndjson".toList ++ crlfText) =
        printField (contentTypeField (.streaming frames)) ++ crlf := by
      show _ = printField (textField _ "application/x-ndjson".toList) ++ _
      decide
    have hchunked : writeHttpLine ("Transfer-Encoding: chunked".toList ++ crlfText ++ crlfText) =
        printField chunkedField ++ (crlf ++ crlf) := by decide
    have hframe : writeGatewayStreamFrameToHttp = fun json => printChunk (json ++ [10]) :=
      funext fun json => writeChunk_eq (json ++ [10])
    simp only [writeGatewayEndpointRequest]
    rw [hline, hhost, haccept, hconnection, htype, hchunked, writeLastChunk_eq, hframe]
    simp only [gatewayFields, GatewayBody.data, GatewayBody.framingField, printFields,
      flatMap_cons, flatMap_nil, flatMap_map, append_assoc, append_nil]
  | buffered json =>
    have htype : writeHttpLine ("Content-Type: application/json".toList ++ crlfText) =
        printField (contentTypeField (.buffered json)) ++ crlf := by
      show _ = printField (textField _ "application/json".toList) ++ _
      decide
    simp only [writeGatewayEndpointRequest]
    rw [hline, hhost, haccept, hconnection, htype, writeHttpLine_length]
    simp only [gatewayFields, GatewayBody.data, GatewayBody.framingField, printFields,
      flatMap_cons, flatMap_nil, append_assoc, append_nil]

/-- The framing fields frame the body. -/
theorem readRequestBody_gateway (url : NativeHttpUrl) :
    readRequestBody ((gatewayFields body url).map Http1.Field.canonical) body.data =
      some (body.bytes, []) := by
  cases body with
  | streaming frames =>
    have hne : ∀ chunk ∈ frames.map fun frame => frame ++ [10], chunk ≠ [] := by simp
    have hbytes : GatewayBody.bytes (.streaming frames) =
        (frames.map fun frame => frame ++ [10]).flatten := by
      simp [GatewayBody.bytes, List.flatMap]
    rw [hbytes]
    exact readRequestBody_chunked hne rfl rfl
  | buffered json =>
    refine readRequestBody_length json rfl ?_
    rw [← encodeText_decimal]
    rfl

/-- For every endpoint and body: the bytes of the gateway request are that one request just when
the target is a path and a query and the authority can be the value of a field. -/
theorem onlyRequest_gateway_iff (url : NativeHttpUrl) :
    OnlyRequest (writeGatewayEndpointRequest body url) postMethod url.requestTarget
        [⟨hostName, encodeText url.authority⟩, acceptField.canonical,
          (contentTypeField body).canonical] body.bytes ↔
      Http1.IsOriginForm (encodeText url.requestTarget) ∧
        Http1.IsFieldValue (encodeText url.authority) := by
  have hpost : IsHttpToken postMethod := by decide
  have hframing : Http1.IsFieldValue body.framingField.value := by
    cases body with
    | streaming => exact isFieldValue_framing (some []) 0
    | buffered json => exact isFieldValue_framing none json.length
  have htype : Http1.IsFieldValue (contentTypeField body).value := by
    cases body
    · show Http1.IsFieldValue (encodeText "application/x-ndjson".toList)
      decide
    · show Http1.IsFieldValue (encodeText "application/json".toList)
      decide
  have hfieldName : Http1.IsToken body.framingField.name ∧
      FramingName (lower body.framingField.name) := by
    cases body
    · show Http1.IsToken (encodeText "Transfer-Encoding".toList) ∧
        FramingName (lower (encodeText "Transfer-Encoding".toList))
      decide
    · show Http1.IsToken (encodeText "Content-Length".toList) ∧
        FramingName (lower (encodeText "Content-Length".toList))
      decide
  have hfixed : Http1.IsToken (encodeText "Host".toList) ∧ Http1.IsToken acceptField.name ∧
      Http1.IsToken connectionField.name ∧ Http1.IsToken (encodeText "Content-Type".toList) := by
    decide
  have hforall : ∀ {P : Http1.Field → Prop}, (∀ field ∈ gatewayFields body url, P field) ↔
      P (textField "Host".toList url.authority) ∧ P acceptField ∧ P connectionField ∧
        P (contentTypeField body) ∧ P body.framingField := by
    intro P
    simp only [gatewayFields, forall_mem_cons, not_mem_nil, false_imp_iff, implies_true, and_true]
  have hnames : ∀ field ∈ gatewayFields body url, Http1.IsToken field.name :=
    hforall.2 ⟨hfixed.1, hfixed.2.1, hfixed.2.2.1, hfixed.2.2.2, hfieldName.1⟩
  have hconnection : Http1.IsFieldValue connectionField.value := by decide
  have haccept : Http1.IsFieldValue acceptField.value := by decide
  have hhost : ¬FramingName (lower (encodeText "Host".toList)) := by decide
  have hprint := onlyRequest_print_iff url.requestTarget hpost hnames
    (hforall.2 ⟨fun h => absurd h hhost, fun _ => haccept, fun _ => hconnection, fun _ => htype,
      fun _ => hframing⟩) (readRequestBody_gateway body url)
  have hone : (valuesOf hostName ((gatewayFields body url).map
      Http1.Field.canonical)).length = 1 := by
    cases body <;> rfl
  have hfilter : ((gatewayFields body url).map Http1.Field.canonical).filter
      (fun field => ¬FramingName field.name) =
        [⟨hostName, encodeText url.authority⟩, acceptField.canonical,
          (contentTypeField body).canonical] := by
    cases body <;> rfl
  rw [← writeGatewayEndpointRequest_eq, hfilter] at hprint
  rw [hprint, hforall]
  simp only [hone, haccept, hconnection, htype, hframing, true_and, and_true]
  rfl

/-! ### Both writers -/

/-- The characters that a request may have where it goes on the wire as it is: a path and a query
in its target, one `Host` at most, an authority that can be its value where none is given, and no
control character in a header that is written. -/
def WireTexts (request : HttpRequest) (url : NativeHttpUrl) : Prop :=
  Http1.isTargetTail (encodeText url.requestTarget) = true ∧
    request.headers.countP (fun header => header.name = "host".toList) ≤ 1 ∧
    ((request.headers.any fun header => header.name = "host".toList) = false →
      Http1.IsFieldValue (encodeText url.authority)) ∧
    ∀ header ∈ request.writtenHeaders, ∀ c ∈ header.value, ¬IsControl c

/-- The texts of a request can be checked. -/
instance (request : HttpRequest) (url : NativeHttpUrl) : Decidable (WireTexts request url) :=
  inferInstanceAs (Decidable (_ ∧ _))

/-- The target of an accepted URL is a path and a query by its characters alone. -/
theorem isOriginForm_requestTarget {text : Text} (h : parseNativeHttpUrl text = .ok url) :
    Http1.IsOriginForm (encodeText url.requestTarget) ↔
      isTargetTail (encodeText url.requestTarget) = true := by
  have hhead : (encodeText url.requestTarget).head? = some 47 := by
    obtain ⟨target, htarget⟩ := List.head?_eq_some_iff.1 (head?_requestTarget h)
    rw [htarget, encodeText_cons, utf8EncodeChar_of_lt (by decide)]
    rfl
  exact and_iff_right hhead

/-- For every request whose URL is accepted, buffered or in chunks, and every body for the
gateway: authority and target are those of the URL, the native bytes are that one request just
when its texts can go on the wire as they are, and the bytes for the gateway just when its target
is a path and a query and its authority can be the value of a field. -/
theorem oneRequest_iff {request : HttpRequest} {url : NativeHttpUrl}
    (hurl : parseNativeHttpUrl request.url = .ok url) (written : Option (List Bytes))
    (body : GatewayBody) :
    UrlText request.url url.authority url.requestTarget ∧
    (OnlyRequest (writeNativeHttpRequest (written.map streamedChunks) request url) request.method
        url.requestTarget
        ((hostField request url).map Http1.Field.canonical ++
          request.writtenHeaders.map HttpHeader.field)
        (requestBody written request) ↔ WireTexts request url) ∧
    (OnlyRequest (writeGatewayEndpointRequest body url) postMethod url.requestTarget
        [⟨hostName, encodeText url.authority⟩, acceptField.canonical,
          (contentTypeField body).canonical] body.bytes ↔
      Http1.isTargetTail (encodeText url.requestTarget) = true ∧
        Http1.IsFieldValue (encodeText url.authority)) := by
  have htarget := isOriginForm_requestTarget hurl
  refine ⟨urlText_of_parse hurl, ?_, ?_⟩
  · rw [onlyRequest_native_iff, WireSafe, htarget, WireTexts]
  · rw [onlyRequest_gateway_iff, htarget]

/-- A request for a page. -/
def pageRequest : HttpRequest :=
  ⟨"GET".toList, "http://127.0.0.1/a?b".toList, [], [], isHttpToken_get⟩

def pageUrl : NativeHttpUrl := ⟨"127.0.0.1".toList, 80, "127.0.0.1".toList, "/a?b".toList⟩

theorem oneRequest_page :
    OnlyRequest (writeNativeHttpRequest none pageRequest pageUrl) pageRequest.method
      pageUrl.requestTarget ((hostField pageRequest pageUrl).map Http1.Field.canonical) [] :=
  ((oneRequest_iff (show parseNativeHttpUrl pageRequest.url = .ok pageUrl by decide) none
    (.buffered [])).2.1).2 (by decide)

/-- A request with the line of a header in its URL. -/
def smugglingUrlText : Text :=
  "http://127.0.0.1/a HTTP/1.1\r\nX-Injected: yes\r\n\r\nGET /b".toList

def smugglingRequest : HttpRequest := ⟨"GET".toList, smugglingUrlText, [], [], isHttpToken_get⟩

/-- An URL that smuggles a second request. -/
def smugglingUrl : NativeHttpUrl :=
  ⟨"127.0.0.1".toList, 80, "127.0.0.1".toList,
    "/a HTTP/1.1\r\nX-Injected: yes\r\n\r\nGET /b".toList⟩

/-- The constructor and the parser accept a URL that ends the request line: the first request on
the wire has a header of the URL's text, and a second one is behind it. -/
theorem not_oneRequest_smuggling :
    HttpRequest.new "get".toList smugglingUrlText [] [] = .ok smugglingRequest ∧
    parseNativeHttpUrl smugglingRequest.url = .ok smugglingUrl ∧
    (Http1.readRequest (writeNativeHttpRequest none smugglingRequest smugglingUrl)).map Prod.fst =
      some ⟨encodeText "GET".toList, encodeText "/a".toList,
        [⟨encodeText "x-injected".toList, encodeText "yes".toList⟩], []⟩ ∧
    ¬OnlyRequest (writeNativeHttpRequest none smugglingRequest smugglingUrl)
      smugglingRequest.method smugglingUrl.requestTarget
      ((hostField smugglingRequest smugglingUrl).map Http1.Field.canonical) [] := by
  refine ⟨by decide, by decide, by decide, fun honly => ?_⟩
  have hsafe := (onlyRequest_native_iff none smugglingRequest smugglingUrl).1 honly
  exact absurd hsafe.1 (by decide)

end WasmHost

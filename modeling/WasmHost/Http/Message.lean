import WasmHost.Text

/-!
# HTTP messages of the bridge

The requests and headers of `http.rs` with what their constructors check, and the errors of the
bridge. A header and a request keep that as a field, so that a writer can rely on it.
-/

namespace WasmHost

/-- The kinds of an `HttpBridgeError`. -/
inductive HttpBridgeErrorKind
  | invalidRequest | invalidResponse | unsupportedScheme | gatewayUnavailable | authFailure
  | cors | timeout | cancelled | transport | responseTooLarge
  deriving DecidableEq, Repr

/-- An error of the bridge. -/
structure HttpBridgeError where
  kind : HttpBridgeErrorKind
  message : String
  deriving DecidableEq, Repr

namespace HttpBridgeError

def invalidRequest (message : String) : HttpBridgeError := ⟨.invalidRequest, message⟩

def invalidResponse (message : String) : HttpBridgeError := ⟨.invalidResponse, message⟩

def unsupportedScheme (message : String) : HttpBridgeError := ⟨.unsupportedScheme, message⟩

def gatewayUnavailable (message : String) : HttpBridgeError := ⟨.gatewayUnavailable, message⟩

def authFailure (message : String) : HttpBridgeError := ⟨.authFailure, message⟩

def timeout (message : String) : HttpBridgeError := ⟨.timeout, message⟩

def cancelled (message : String) : HttpBridgeError := ⟨.cancelled, message⟩

def transport (message : String) : HttpBridgeError := ⟨.transport, message⟩

def responseTooLarge (message : String) : HttpBridgeError := ⟨.responseTooLarge, message⟩

/-- The name that `{:?}` prints. -/
def kindName : HttpBridgeErrorKind → String
  | .invalidRequest => "InvalidRequest"
  | .invalidResponse => "InvalidResponse"
  | .unsupportedScheme => "UnsupportedScheme"
  | .gatewayUnavailable => "GatewayUnavailable"
  | .authFailure => "AuthFailure"
  | .cors => "Cors"
  | .timeout => "Timeout"
  | .cancelled => "Cancelled"
  | .transport => "Transport"
  | .responseTooLarge => "ResponseTooLarge"

/-- The `Display` of an error. -/
def display (error : HttpBridgeError) : String := kindName error.kind ++ ": " ++ error.message

end HttpBridgeError

/-- `is_http_token_byte`: the bytes of a character that is not ASCII are none. -/
def isHttpTokenChar (c : Char) : Bool := c.isAlphanum || c ∈ "!#$%&'*+-.^_`|~".toList

/-- A non-empty ASCII token. -/
def IsHttpToken (t : Text) : Prop := t ≠ [] ∧ ∀ c ∈ t, isHttpTokenChar c

/-- Tokens can be recognised. -/
instance (t : Text) : Decidable (IsHttpToken t) := inferInstanceAs (Decidable (_ ∧ _))

theorem isHttpToken_get : IsHttpToken "GET".toList := by decide

/-- `HttpHeader`, as `HttpHeader::new` makes it. -/
structure HttpHeader where
  name : Text
  value : Text
  name_token : IsHttpToken name
  name_lower : toAsciiLowercase name = name
  value_trimmed : strTrim value = value
  value_no_line_end : '\r' ∉ value ∧ '\n' ∉ value
  deriving DecidableEq

/-- `HttpRequest`, as `HttpRequest::new` makes it and a redirect keeps it. -/
structure HttpRequest where
  method : Text
  url : Text
  headers : List HttpHeader
  body : Bytes
  method_token : IsHttpToken method
  deriving DecidableEq

/-- A response of the bridge. -/
structure HttpResponse where
  status : ℕ
  headers : List HttpHeader
  body : Bytes
  deriving DecidableEq

theorem toLower_toLower (c : Char) : c.toLower.toLower = c.toLower := by
  unfold Char.toLower
  split
  next h =>
    -- a letter that was moved is not a capital any more
    rw [dif_neg]
    simp
    grind
  next h => simp_all

theorem toAsciiLowercase_idem (t : Text) :
    toAsciiLowercase (toAsciiLowercase t) = toAsciiLowercase t := by
  rw [toAsciiLowercase, toAsciiLowercase, List.map_map]
  exact List.map_congr_left fun c _ => toLower_toLower c

/-- Cutting off the end leaves the start as it is. -/
theorem dropWhile_rdropWhile {α : Type} {p : α → Bool} {l : List α} (h : l.dropWhile p = l) :
    (l.rdropWhile p).dropWhile p = l.rdropWhile p := by
  cases hcut : l.rdropWhile p with
  | nil => rfl
  | cons a rest =>
    obtain ⟨tail, htail⟩ : l.rdropWhile p <+: l := List.rdropWhile_prefix p l
    have ha : p a = false := by
      rw [hcut] at htail
      rw [← htail, List.cons_append, List.dropWhile_cons] at h
      by_contra hp
      have hlength := congrArg List.length h
      rw [if_pos (by simpa using hp)] at hlength
      have := (List.dropWhile_suffix p (l := rest ++ tail)).length_le
      simp only [List.length_cons] at hlength
      omega
    rw [List.dropWhile_cons_of_neg (by simp [ha])]

theorem strTrim_idem (t : Text) : strTrim (strTrim t) = strTrim t := by
  unfold strTrim
  rw [dropWhile_rdropWhile (List.dropWhile_idempotent isWhitespace t), List.rdropWhile_idempotent]

/-- `HttpHeader::new`. -/
def HttpHeader.new (name value : Text) : Except HttpBridgeError HttpHeader :=
  let name := toAsciiLowercase (strTrim name)
  let value := strTrim value
  if hname : IsHttpToken name then
    if hvalue : '\r' ∉ value ∧ '\n' ∉ value then
      .ok ⟨name, value, hname, toAsciiLowercase_idem _, strTrim_idem _, hvalue⟩
    else .error (.invalidRequest "HTTP header values cannot contain CR or LF")
  else .error (.invalidRequest "HTTP header names must be non-empty ASCII tokens")

/-- `HttpResponse::new`. -/
def HttpResponse.new (status : ℕ) (headers : List HttpHeader) (body : Bytes) :
    Except HttpBridgeError HttpResponse :=
  if 100 ≤ status ∧ status ≤ 599 then .ok ⟨status, headers, body⟩
  else .error (.invalidResponse
    ("HTTP response status must be between 100 and 599, got " ++ toString status))

/-- `normalize_http_method`, with what it has checked. -/
def normalizeHttpMethod (method : Text) :
    Except HttpBridgeError { m : Text // IsHttpToken m } :=
  let method := toAsciiUppercase (strTrim method)
  if h : IsHttpToken method then .ok ⟨method, h⟩
  else .error (.invalidRequest "HTTP method must be a non-empty ASCII token")

/-- `normalize_http_url`. -/
def normalizeHttpUrl (url : Text) : Except HttpBridgeError Text :=
  match splitOnce ':' (strTrim url) with
  | none => .error (.invalidRequest "HTTP request URL must include a scheme")
  | some (scheme, rest) =>
    let scheme := toAsciiLowercase scheme
    if scheme = "http".toList ∨ scheme = "https".toList then .ok (scheme ++ ':' :: rest)
    else .error (.unsupportedScheme
      ("unsupported HTTP bridge scheme: " ++ String.ofList scheme))

/-- `HttpRequest::new`. -/
def HttpRequest.new (method url : Text) (headers : List HttpHeader) (body : Bytes) :
    Except HttpBridgeError HttpRequest := do
  let ⟨method, hmethod⟩ ← normalizeHttpMethod method
  let url ← normalizeHttpUrl url
  return ⟨method, url, headers, body, hmethod⟩

end WasmHost

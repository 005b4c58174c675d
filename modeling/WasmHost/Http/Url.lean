import WasmHost.Http.Message

/-!
# URLs of the native dispatcher

`parse_native_http_url` takes a URL apart into the authority it connects to and the request
target it asks for, without looking at the characters of either beyond what it cuts at.
-/

namespace WasmHost

/-- `NativeHttpUrl`. -/
structure NativeHttpUrl where
  host : Text
  port : ℕ
  authority : Text
  requestTarget : Text
  deriving DecidableEq

/-- `char::to_digit`. -/
def toDigit (radix : ℕ) (c : Char) : Option ℕ :=
  let value :=
    if '0' ≤ c ∧ c ≤ '9' then some (c.toNat - '0'.toNat)
    else if 'a' ≤ c ∧ c ≤ 'z' then some (c.toNat - 'a'.toNat + 10)
    else if 'A' ≤ c ∧ c ≤ 'Z' then some (c.toNat - 'A'.toNat + 10)
    else none
  value.filter (· < radix)

/-- `from_str_radix` of an unsigned number below `bound`: one `+` in front is accepted. -/
def fromStrRadix (radix bound : ℕ) (src : Text) : Option ℕ :=
  let digits := match src with
    | '+' :: c :: rest => c :: rest
    | other => other
  if digits = [] then none
  else ((digits.mapM (toDigit radix)).map
    (List.foldl (fun value digit => value * radix + digit) 0)).filter (· < bound)

/-- `parse_native_http_port`. -/
def parseNativeHttpPort (value : Text) : Except HttpBridgeError ℕ :=
  match fromStrRadix 10 (2 ^ 16) value with
  | some port => .ok port
  | none => .error (.invalidRequest ("invalid HTTP URL port: " ++ String.ofList value))

/-- `split_native_http_authority_and_target`. -/
def splitNativeHttpAuthorityAndTarget (rest : Text) : Text × Text :=
  let (authority, suffix) := rest.span fun c => c ≠ '/' ∧ c ≠ '?' ∧ c ≠ '#'
  let target := cutAt '#' suffix
  let requestTarget :=
    if target = [] then "/".toList
    else if target.head? = some '?' then '/' :: target
    else target
  (authority, requestTarget)

/-- `parse_native_http_authority`. -/
def parseNativeHttpAuthority (authority : Text) : Except HttpBridgeError (Text × ℕ) :=
  match stripPrefix "[".toList authority with
  | some rest =>
    match splitOnce ']' rest with
    | none => .error (.invalidRequest "IPv6 HTTP URL host must include a closing bracket")
    | some (host, suffix) =>
      if host = [] then .error (.invalidRequest "HTTP request URL host cannot be empty")
      else
        match stripPrefix ":".toList suffix with
        | some value => (parseNativeHttpPort value).map fun port => (host, port)
        | none =>
          if suffix = [] then .ok (host, 80)
          else .error (.invalidRequest "invalid IPv6 HTTP URL authority")
  | none =>
    match rsplitOnce ':' authority with
    | none => .ok (authority, 80)
    | some (host, port) =>
      if ':' ∈ host then .error (.invalidRequest "IPv6 HTTP URL hosts must be bracketed")
      else if host = [] then .error (.invalidRequest "HTTP request URL host cannot be empty")
      else (parseNativeHttpPort port).map fun port => (host, port)

/-- `parse_native_http_url`. -/
def parseNativeHttpUrl (url : Text) : Except HttpBridgeError NativeHttpUrl :=
  match stripPrefix "http://".toList url with
  | none =>
    let scheme := ((splitOnce ':' url).map Prod.fst).getD "unknown".toList
    .error (.unsupportedScheme
      ("native HTTP bridge supports http:// URLs only, got " ++ String.ofList scheme))
  | some rest =>
    let (authority, requestTarget) := splitNativeHttpAuthorityAndTarget rest
    if authority = [] ∨ '@' ∈ authority then
      .error (.invalidRequest "HTTP request URL must include a host without userinfo")
    else
      (parseNativeHttpAuthority authority).map fun (host, port) =>
        { host, port, authority, requestTarget }

/-- The text of an `http` URL with this authority and this path and query, with or without a
fragment. An empty path is the root. -/
def UrlText (text authority target : Text) : Prop :=
  ∃ path fragment, text = "http://".toList ++ (authority ++ (path ++ fragment)) ∧
    (fragment = [] ∨ fragment.head? = some '#') ∧ '#' ∉ path ∧
    (target = path ∧ path.head? = some '/' ∨ target = '/' :: path ∧ path.head? = some '?' ∨
      target = ['/'] ∧ path = [])

theorem cutAt_append (sep : Char) (t : Text) :
    ∃ rest, t = cutAt sep t ++ rest ∧ (rest = [] ∨ rest.head? = some sep) ∧ sep ∉ cutAt sep t := by
  unfold cutAt
  cases hsplit : splitOnce sep t with
  | none => exact ⟨[], by simp, .inl rfl, splitOnce_eq_none_iff.1 hsplit⟩
  | some parts =>
    obtain ⟨left, right⟩ := parts
    obtain ⟨rfl, hleft⟩ := splitOnce_eq_some_iff.1 hsplit
    exact ⟨sep :: right, rfl, .inr rfl, hleft⟩

theorem urlText_split (rest : Text) :
    UrlText ("http://".toList ++ rest) (splitNativeHttpAuthorityAndTarget rest).1
      (splitNativeHttpAuthorityAndTarget rest).2 := by
  unfold splitNativeHttpAuthorityAndTarget
  rw [List.span_eq_takeWhile_dropWhile]
  simp only
  set suffix := rest.dropWhile fun c => decide (c ≠ '/' ∧ c ≠ '?' ∧ c ≠ '#') with hsuffix
  obtain ⟨fragment, happend, hfragment, hnot⟩ := cutAt_append '#' suffix
  have htext : rest = rest.takeWhile (fun c => decide (c ≠ '/' ∧ c ≠ '?' ∧ c ≠ '#')) ++
      (cutAt '#' suffix ++ fragment) := by
    rw [← happend, hsuffix, List.takeWhile_append_dropWhile]
  refine ⟨cutAt '#' suffix, fragment, by rw [← htext], hfragment, hnot, ?_⟩
  cases hpath : cutAt '#' suffix with
  | nil => exact .inr (.inr ⟨rfl, rfl⟩)
  | cons c path =>
    -- the rest of the URL begins with the character that ended the authority
    have hc : c = '/' ∨ c = '?' := by
      have hhead : suffix.head? = some c := by rw [happend, hpath]; rfl
      have hend := List.head?_dropWhile_not (fun c => decide (c ≠ '/' ∧ c ≠ '?' ∧ c ≠ '#')) rest
      rw [← hsuffix, hhead] at hend
      have hne : c ≠ '#' := by
        rintro rfl
        rw [hpath] at hnot
        exact hnot List.mem_cons_self
      simp only [ne_eq, decide_eq_false_iff_not, not_and, not_not] at hend
      by_cases hslash : c = '/'
      · exact .inl hslash
      · by_cases hquery : c = '?'
        · exact .inr hquery
        · exact absurd (hend hslash hquery) hne
    rcases hc with rfl | rfl
    · exact .inl ⟨by simp, rfl⟩
    · exact .inr (.inl ⟨by simp, rfl⟩)

variable {text : Text} {url : NativeHttpUrl}

/-- The parts of an accepted URL. -/
theorem urlText_of_parse (h : parseNativeHttpUrl text = .ok url) :
    UrlText text url.authority url.requestTarget := by
  unfold parseNativeHttpUrl at h
  split at h
  · exact absurd h (by simp)
  next rest hrest =>
    rw [stripPrefix_eq_some_iff.1 hrest]
    have hparts := urlText_split rest
    revert h hparts
    cases splitNativeHttpAuthorityAndTarget rest with
    | mk authority target =>
      intro h hparts
      simp only at h
      split at h
      · exact absurd h (by simp)
      cases hauthority : parseNativeHttpAuthority authority with
      | error => simp [hauthority, Except.map] at h
      | ok =>
        rw [hauthority] at h
        have hurl := Except.ok.inj h
        subst hurl
        exact hparts

/-- The request target of an accepted URL starts at the root. -/
theorem head?_requestTarget (h : parseNativeHttpUrl text = .ok url) :
    url.requestTarget.head? = some '/' := by
  obtain ⟨path, fragment, -, -, -, ⟨htarget, hhead⟩ | ⟨htarget, -⟩ | ⟨htarget, -⟩⟩ :=
    urlText_of_parse h
  · rw [htarget, hhead]
  · rw [htarget]
    rfl
  · rw [htarget]
    rfl

end WasmHost

import Mathlib.Data.List.Chain
import WasmHost.Http.Url
import WasmHost.Lib.Except

/-!
# Redirects of the native dispatcher

`dispatch_native_http_request` sends a request, and while the answer is a redirect it sends the
request that `native_http_redirect_request` makes of it, at most `NATIVE_HTTP_MAX_REDIRECTS`
times. What the network does with each of them is arbitrary.

The requests sent form a chain in which each one is the redirect of the one before
(`isChain_sent`). Along such a chain a request that has left the authority of the first one never
carries `authorization` or `cookie` again (`Redirected.clean`), and a method and body that were
dropped stay dropped.
-/

namespace WasmHost

open List

/-- `NativeHttpResponseHead`. -/
structure NativeHttpResponseHead where
  status : ℕ
  headers : List HttpHeader
  contentLength : Option ℕ
  chunked : Bool
  bodyPrefix : Bytes

def nativeHttpMaxRedirects : ℕ := 10

/-- `is_native_http_redirect_status`. -/
def isNativeHttpRedirectStatus (status : ℕ) : Bool := status ∈ [301, 302, 303, 307, 308]

/-- `native_http_header_value`. -/
def nativeHttpHeaderValue (headers : List HttpHeader) (name : Text) : Option Text :=
  headers.findSome? fun header => if header.name = name then some header.value else none

/-- `should_rewrite_native_http_redirect_method`. -/
def shouldRewriteNativeHttpRedirectMethod (status : ℕ) (method : Text) : Bool :=
  (status = 303 ∧ ¬(method = "GET".toList ∨ method = "HEAD".toList)) ∨
    ((status = 301 ∨ status = 302) ∧ method = "POST".toList)

/-- `native_http_redirect_base_path`. -/
def nativeHttpRedirectBasePath (current : NativeHttpUrl) : Text :=
  cutAt '?' current.requestTarget

/-- `native_http_redirect_directory`. -/
def nativeHttpRedirectDirectory (current : NativeHttpUrl) : Text :=
  match rsplitOnce '/' (nativeHttpRedirectBasePath current) with
  | none => "/".toList
  | some (directory, _) => if directory = [] then "/".toList else directory ++ "/".toList

/-- `resolve_native_http_redirect_url`. -/
def resolveNativeHttpRedirectUrl (current : NativeHttpUrl) (location : Text) :
    Except HttpBridgeError Text :=
  let location := strTrim location
  if location = [] then .error (.invalidResponse "HTTP redirect location cannot be empty")
  else if "http://".toList <+: location ∨ "https://".toList <+: location then
    (normalizeHttpUrl location).mapError fun error =>
      .invalidResponse ("invalid HTTP redirect location: " ++ error.display)
  else if "//".toList <+: location then .ok ("http:".toList ++ location)
  else
    let target := cutAt '#' location
    let target :=
      if target = [] then current.requestTarget
      else if target.head? = some '/' then target
      else if target.head? = some '?' then nativeHttpRedirectBasePath current ++ target
      else nativeHttpRedirectDirectory current ++ target
    .ok ("http://".toList ++ current.authority ++ target)

/-- The request with method `GET` and without a body. -/
def HttpRequest.rewriteToGet (request : HttpRequest) : HttpRequest :=
  { request with
    method := "GET".toList
    body := []
    headers := request.headers.filter fun header =>
      ¬(header.name = "content-type".toList ∨ header.name = "content-length".toList)
    method_token := isHttpToken_get }

/-- A header that another authority must not see. -/
def HttpHeader.Sensitive (header : HttpHeader) : Prop :=
  header.name = "authorization".toList ∨ header.name = "cookie".toList

/-- Sensitive headers can be recognised. -/
instance (header : HttpHeader) : Decidable header.Sensitive :=
  inferInstanceAs (Decidable (_ ∨ _))

def HttpRequest.stripSensitive (request : HttpRequest) : HttpRequest :=
  { request with headers := request.headers.filter fun header => ¬header.Sensitive }

/-- `native_http_redirect_request`. -/
def nativeHttpRedirectRequest (current : HttpRequest) (currentUrl : NativeHttpUrl)
    (head : NativeHttpResponseHead) (redirectCount : ℕ) :
    Except HttpBridgeError (Option HttpRequest) :=
  if isNativeHttpRedirectStatus head.status = false then .ok none
  else
    match nativeHttpHeaderValue head.headers "location".toList with
    | none => .ok none
    | some location =>
      if redirectCount ≥ nativeHttpMaxRedirects then
        .error (.invalidResponse
          ("HTTP redirect limit exceeded: " ++ toString nativeHttpMaxRedirects))
      else do
        let redirectedUrl ← resolveNativeHttpRedirectUrl currentUrl location
        let redirectedNativeUrl ← parseNativeHttpUrl redirectedUrl
        let redirected := { current with url := redirectedUrl }
        let redirected :=
          if shouldRewriteNativeHttpRedirectMethod head.status redirected.method then
            redirected.rewriteToGet
          else redirected
        let redirected :=
          if redirectedNativeUrl.authority ≠ currentUrl.authority then redirected.stripSensitive
          else redirected
        return some redirected

/-- What happens around one request: whether the run is cancelled before it, and the outcome of
connecting, of writing the request and of reading the head and the body of the answer. -/
structure Hop where
  cancelled : Bool
  connect : Except HttpBridgeError Unit
  write : Except HttpBridgeError Unit
  head : Except HttpBridgeError NativeHttpResponseHead
  respond : Except HttpBridgeError Unit

/-- A request on its way, with the URL it was sent to and the head of the answer, if one came. -/
structure SentRequest where
  request : HttpRequest
  url : NativeHttpUrl
  head : Option NativeHttpResponseHead

/-- The requests sent and the outcome. -/
structure Dispatch where
  sent : List SentRequest
  result : Except HttpBridgeError Unit

def Dispatch.fail (error : HttpBridgeError) : Dispatch := ⟨[], .error error⟩

/-- The loop of `dispatch_native_http_request` with `remaining` rounds to go. -/
def dispatchLoop (network : ℕ → HttpRequest → Hop) (hasStreamingBody : Bool) :
    ℕ → HttpRequest → Dispatch
  | 0, _ => .fail (.invalidResponse
      ("HTTP redirect limit exceeded: " ++ toString nativeHttpMaxRedirects))
  | remaining + 1, current =>
    let redirectCount := nativeHttpMaxRedirects - remaining
    let hop := network redirectCount current
    if hop.cancelled then .fail (.cancelled "HTTP request cancelled")
    else
      match parseNativeHttpUrl current.url with
      | .error error => .fail error
      | .ok url =>
        match hop.connect with
        | .error error => .fail error
        | .ok () =>
          match hop.write with
          | .error error => ⟨[⟨current, url, none⟩], .error error⟩
          | .ok () =>
            match hop.head with
            | .error error => ⟨[⟨current, url, none⟩], .error error⟩
            | .ok head =>
              match nativeHttpRedirectRequest current url head redirectCount with
              | .error error => ⟨[⟨current, url, some head⟩], .error error⟩
              | .ok none => ⟨[⟨current, url, some head⟩], hop.respond⟩
              | .ok (some redirected) =>
                if hasStreamingBody then
                  ⟨[⟨current, url, some head⟩], .error (.invalidResponse
                    "HTTP redirects are not supported for streaming request bodies")⟩
                else
                  let rest := dispatchLoop network hasStreamingBody remaining redirected
                  ⟨⟨current, url, some head⟩ :: rest.sent, rest.result⟩

/-- `dispatch_native_http_request`. -/
def dispatchNativeHttpRequest (network : ℕ → HttpRequest → Hop) (hasStreamingBody : Bool)
    (request : HttpRequest) : Dispatch :=
  dispatchLoop network hasStreamingBody (nativeHttpMaxRedirects + 1) request

/-! ### One redirect -/

/-- No header that another authority must not see. -/
def HttpRequest.Clean (request : HttpRequest) : Prop := ∀ h ∈ request.headers, ¬h.Sensitive

/-- `next` is what the dispatcher makes of a request that was answered by a redirect. -/
def Redirected (current next : SentRequest) : Prop :=
  ∃ head redirectCount, current.head = some head ∧
    nativeHttpRedirectRequest current.request current.url head redirectCount =
      .ok (some next.request) ∧
    parseNativeHttpUrl next.request.url = .ok next.url

variable {request : HttpRequest} {after : List SentRequest} {current : SentRequest}

theorem HttpRequest.Clean.rewriteToGet (h : request.Clean) :
    request.rewriteToGet.Clean := fun header hheader =>
  h header (mem_of_mem_filter hheader)

theorem HttpRequest.Clean.stripSensitive (h : request.Clean) :
    request.stripSensitive.Clean := fun header hheader =>
  h header (mem_of_mem_filter hheader)

theorem HttpRequest.clean_stripSensitive (request : HttpRequest) :
    request.stripSensitive.Clean := by
  intro header hheader
  have := of_mem_filter hheader
  simpa using this

/-- What a redirect makes of a request. -/
theorem nativeHttpRedirectRequest_eq_some {current next : HttpRequest} {url : NativeHttpUrl}
    {head : NativeHttpResponseHead} {redirectCount : ℕ}
    (h : nativeHttpRedirectRequest current url head redirectCount = .ok (some next)) :
    ∃ redirectedUrl parsed, parseNativeHttpUrl redirectedUrl = .ok parsed ∧
      isNativeHttpRedirectStatus head.status = true ∧ redirectCount < nativeHttpMaxRedirects ∧
      ∃ rewritten : HttpRequest,
        rewritten = (if shouldRewriteNativeHttpRedirectMethod head.status current.method then
          { current with url := redirectedUrl : HttpRequest }.rewriteToGet
          else { current with url := redirectedUrl }) ∧
        next = if parsed.authority ≠ url.authority then rewritten.stripSensitive
          else rewritten := by
  unfold nativeHttpRedirectRequest at h
  split at h
  · exact absurd h (by simp)
  next hstatus =>
    split at h
    · exact absurd h (by simp)
    next location hlocation =>
      split at h
      · exact absurd h (by simp)
      next hcount =>
        obtain ⟨redirectedUrl, -, h⟩ := Except.bind_eq_ok_iff.1 h
        obtain ⟨parsed, hparsed, h⟩ := Except.bind_eq_ok_iff.1 h
        refine ⟨redirectedUrl, parsed, hparsed, by simpa using hstatus, by omega, _, rfl, ?_⟩
        exact (Option.some.inj (Except.ok.inj h)).symm

namespace Redirected

variable {current next : SentRequest}

variable (h : Redirected current next)
include h

/-- The redirect of a request, before and after the headers are stripped. -/
theorem cases :
    ∃ head : NativeHttpResponseHead, current.head = some head ∧ ∃ rewritten : HttpRequest,
      rewritten = (if shouldRewriteNativeHttpRedirectMethod head.status current.request.method then
        { current.request with url := next.request.url : HttpRequest }.rewriteToGet
        else { current.request with url := next.request.url }) ∧
      next.request = if next.url.authority ≠ current.url.authority then rewritten.stripSensitive
        else rewritten := by
  obtain ⟨head, redirectCount, hhead, hredirect, hurl⟩ := h
  obtain ⟨redirectedUrl, parsed, hparsed, -, -, rewritten, hrewritten, hnext⟩ :=
    nativeHttpRedirectRequest_eq_some hredirect
  have hnextUrl : next.request.url = redirectedUrl := by
    rw [hnext, hrewritten]
    split <;> split <;> rfl
  have hparsedUrl : next.url = parsed := by
    rw [hnextUrl, hparsed] at hurl
    exact (Except.ok.inj hurl).symm
  exact ⟨head, hhead, rewritten, hnextUrl ▸ hrewritten, hparsedUrl ▸ hnext⟩

theorem clean (hclean : current.request.Clean) :
    next.request.Clean := by
  obtain ⟨head, -, rewritten, hrewritten, hnext⟩ := h.cases
  have hrewrittenClean : rewritten.Clean := by
    rw [hrewritten]
    split
    · exact HttpRequest.Clean.rewriteToGet hclean
    · exact hclean
  rw [hnext]
  split
  · exact hrewrittenClean.stripSensitive
  · exact hrewrittenClean

/-- A redirect to another authority leaves no header that it must not see. -/
theorem clean_of_authority_ne
    (hne : next.url.authority ≠ current.url.authority) : next.request.Clean := by
  obtain ⟨head, -, rewritten, -, hnext⟩ := h.cases
  rw [hnext, if_pos hne]
  exact rewritten.clean_stripSensitive

/-- Method and body are kept, or the request becomes a `GET` without a body. -/
theorem method_body :
    ∃ head : NativeHttpResponseHead, current.head = some head ∧
      if shouldRewriteNativeHttpRedirectMethod head.status current.request.method then
        next.request.method = "GET".toList ∧ next.request.body = []
      else next.request.method = current.request.method ∧
        next.request.body = current.request.body := by
  obtain ⟨head, hhead, rewritten, hrewritten, hnext⟩ := h.cases
  refine ⟨head, hhead, ?_⟩
  have hsame : next.request.method = rewritten.method ∧ next.request.body = rewritten.body := by
    rw [hnext]
    split <;> exact ⟨rfl, rfl⟩
  rw [hsame.1, hsame.2, hrewritten]
  split <;> exact ⟨rfl, rfl⟩

end Redirected

/-! ### The chain of requests -/

theorem isChain_dispatchLoop (network : ℕ → HttpRequest → Hop) (hasStreamingBody : Bool)
    (remaining : ℕ) (current : HttpRequest) :
    let sent := (dispatchLoop network hasStreamingBody remaining current).sent
    sent.IsChain Redirected ∧ sent.length ≤ remaining ∧
      ∀ first ∈ sent.head?, first.request = current ∧
        parseNativeHttpUrl current.url = .ok first.url := by
  induction remaining generalizing current with
  | zero => simp [dispatchLoop, Dispatch.fail]
  | succ remaining ih =>
    unfold dispatchLoop
    simp only
    split
    · simp [Dispatch.fail]
    split
    · simp [Dispatch.fail]
    next url hurl =>
      split
      · simp [Dispatch.fail]
      split
      · simp [hurl]
      split
      · simp [hurl]
      next head _ =>
        split
        · simp [hurl]
        · simp [hurl]
        next redirected hredirected =>
          split
          · simp [hurl]
          obtain ⟨hchain, hlength, hfirst⟩ := ih redirected
          refine ⟨?_, by simpa using hlength, by simp [hurl]⟩
          refine isChain_cons.2 ⟨fun next hnext => ?_, hchain⟩
          obtain ⟨hrequest, hparsed⟩ := hfirst next hnext
          exact ⟨head, _, rfl, hrequest ▸ hredirected, hrequest ▸ hparsed⟩

/-- In a chain of redirects, a request that has left the authority of the first one, or comes
after one that has, is clean. -/
theorem clean_of_left {first : SentRequest} {before : List SentRequest} {sent : SentRequest}
    (hchain : (before ++ sent :: after).IsChain Redirected)
    (hfirst : (before ++ sent :: after).head? = some first)
    (hleft : ∃ earlier ∈ before ++ [sent], earlier.url.authority ≠ first.url.authority) :
    sent.request.Clean := by
  induction before using List.reverseRecOn generalizing sent after with
  | nil =>
    obtain ⟨earlier, hearlier, hne⟩ := hleft
    obtain rfl : earlier = sent := by simpa using hearlier
    obtain rfl : earlier = first := by simpa using hfirst
    exact absurd rfl hne
  | append_singleton before previous ih =>
    rw [append_assoc] at hchain hfirst
    have hstep : Redirected previous sent := by
      have := (isChain_append.1 hchain).2.1
      exact (isChain_cons_cons.1 this).1
    by_cases hprevious : ∃ earlier ∈ before ++ [previous],
        earlier.url.authority ≠ first.url.authority
    · exact hstep.clean (ih hchain hfirst hprevious)
    · -- so far every request went to the first authority, so this one is the first to leave it
      push Not at hprevious
      obtain ⟨earlier, hearlier, hne⟩ := hleft
      obtain rfl : earlier = sent := by
        rcases mem_append.1 hearlier with hmem | hmem
        · exact absurd (hprevious earlier hmem) hne
        · exact mem_singleton.1 hmem
      refine hstep.clean_of_authority_ne ?_
      rwa [hprevious previous (by simp)]

/-- A request that is a `GET` without a body stays one. -/
theorem Redirected.get {next : SentRequest} (h : Redirected current next)
    (hget : current.request.method = "GET".toList ∧ current.request.body = []) :
    next.request.method = "GET".toList ∧ next.request.body = [] := by
  obtain ⟨head, -, hkept⟩ := h.method_body
  have hno : shouldRewriteNativeHttpRedirectMethod head.status current.request.method = false := by
    rw [hget.1]
    simp [shouldRewriteNativeHttpRedirectMethod]
  rw [hno] at hkept
  simpa [hget] using hkept

theorem get_of_isChain (hchain : (current :: after).IsChain Redirected)
    (hget : current.request.method = "GET".toList ∧ current.request.body = []) :
    ∀ later ∈ current :: after, later.request.method = "GET".toList ∧ later.request.body = [] := by
  induction after generalizing current with
  | nil => simpa using hget
  | cons next after ih =>
    obtain ⟨hstep, hrest⟩ := isChain_cons_cons.1 hchain
    intro later hlater
    rcases mem_cons.1 hlater with rfl | hlater
    · exact hget
    · exact ih hrest (hstep.get hget) later hlater

/-- For every request and whatever the network answers: at most eleven requests are sent; one
that goes to another authority than the first, or comes after one that did, carries neither
`authorization` nor `cookie`; method and body are kept on 307 and 308 and on every `GET` and
`HEAD`; and where the method is changed, that and every later request is a `GET` without a
body. -/
theorem redirects_safe (network : ℕ → HttpRequest → Hop) (hasStreamingBody : Bool)
    (request : HttpRequest) :
    let sent := (dispatchNativeHttpRequest network hasStreamingBody request).sent
    sent.length ≤ nativeHttpMaxRedirects + 1 ∧
    (∀ first before current after, sent = before ++ current :: after → sent.head? = some first →
      (∃ earlier ∈ before ++ [current], earlier.url.authority ≠ first.url.authority) →
        ∀ header ∈ current.request.headers,
          header.name ≠ "authorization".toList ∧ header.name ≠ "cookie".toList) ∧
    ∀ before current next after, sent = before ++ current :: next :: after →
      (∃ head : NativeHttpResponseHead, current.head = some head ∧
        (head.status = 307 ∨ head.status = 308 ∨ current.request.method = "GET".toList ∨
            current.request.method = "HEAD".toList →
          next.request.method = current.request.method ∧
            next.request.body = current.request.body)) ∧
      (next.request.method ≠ current.request.method → ∀ later ∈ next :: after,
        later.request.method = "GET".toList ∧ later.request.body = []) := by
  intro sent
  obtain ⟨hchain, hlength, -⟩ :=
    isChain_dispatchLoop network hasStreamingBody (nativeHttpMaxRedirects + 1) request
  refine ⟨hlength, ?_, ?_⟩
  · intro first before current after hsent hfirst hleft header hheader
    have hclean := clean_of_left (hsent ▸ hchain) (hsent ▸ hfirst) hleft header hheader
    exact not_or.1 hclean
  · intro before current next after hsent
    have hsplit : (before ++ current :: next :: after).IsChain Redirected := hsent ▸ hchain
    obtain ⟨-, hstep, hrest⟩ := isChain_append_cons_cons.1 hsplit
    obtain ⟨head, hhead, hkept⟩ := hstep.method_body
    refine ⟨⟨head, hhead, fun hkeep => ?_⟩, fun hne => ?_⟩
    · have hno : shouldRewriteNativeHttpRedirectMethod head.status current.request.method =
          false := by
        rcases hkeep with h | h | h | h <;> simp [shouldRewriteNativeHttpRedirectMethod, h]
      rwa [hno, if_neg (by simp)] at hkept
    · refine get_of_isChain hrest ?_
      split at hkept
      next => exact hkept
      next => exact absurd hkept.1 hne

end WasmHost

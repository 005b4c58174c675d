import WasmHost.Lib.OrdMap
import WasmHost.Web.CommandMessages

/-!
# Device logins

`FakeBrowserDeviceFlowAuthBroker` of `secrets.js`: logins that a device completes, the sessions that
come of them, and the bearer tokens that are stored under the secret references of the sessions. A
caller may choose the ids of logins and sessions and the references, and several sessions may have
one reference.

* `AuthBroker.perform`: what a call does to the broker, and its answer.
-/

namespace WasmHost

/-- A `BrowserAuthBrokerError`, or a `BrowserSecretProviderError` that it extends. -/
structure AuthError where
  kind : String
  message : String
  exitCode : ℕ
  deriving DecidableEq

def authExitCode (kind : String) : ℕ :=
  if kind = "cancelled" then 130 else if kind = "timeout" then 124 else 2

def authError (kind message : String) : AuthError := ⟨kind, message, authExitCode kind⟩

def secretError (message : String) : AuthError := ⟨"auth_failure", message, 2⟩

/-! ### Values -/

/-- A text that is not blank, trimmed. -/
def nonEmptyText (value : Text) (message : String) : Except AuthError TrimmedText :=
  match TrimmedText.ofText? value with
  | some text => .ok text
  | none => .error (authError "auth_failure" message)

/-- A reference that is not blank, trimmed. -/
def normalizeSecretRef (ref : Text) : Except AuthError TrimmedText :=
  match TrimmedText.ofText? ref with
  | some text => .ok text
  | none => .error (secretError "browser secret reference is required")

/-- A number that is an integer from 0. -/
def nonNegativeInteger (value : NumberValue) (message : String) : Except AuthError ℕ :=
  match value with
  | .finite q =>
      if q.den = 1 ∧ 0 ≤ q ∧ q < 2 ^ 53 then .ok q.num.toNat
      else .error (authError "auth_failure" message)
  | .other => .error (authError "auth_failure" message)

/-- A number that is an integer from 1. -/
def positiveInteger (value : NumberValue) (message : String) : Except AuthError ℕ :=
  match value with
  | .finite q =>
      if q.den = 1 ∧ 0 < q ∧ q < 2 ^ 53 then .ok q.num.toNat
      else .error (authError "auth_failure" message)
  | .other => .error (authError "auth_failure" message)

/-- The text that the value of a token comes to. -/
def normalizeAuthBearerToken (value : Text) : Except AuthError Text :=
  if value = [] ∨ '\r' ∈ value ∨ '\n' ∈ value then
    .error (authError "auth_missing_token" "browser auth token is unavailable")
  else .ok value

/-- A missing list is empty. -/
def normalizeScopes (scopes : Option (ArrayValue Text)) : Except AuthError (List TrimmedText) :=
  match scopes with
  | none => .ok []
  | some .other => .error (authError "auth_failure" "browser device login scopes are invalid")
  | some (.items items) => items.mapM fun scope =>
      nonEmptyText scope "browser device login scopes are invalid"

/-- A field of an account. Values that are no primitive are not kept. -/
inductive AccountValue
  | null
  | text (t : Text)
  | number (value : NumberValue)
  | boolean (b : Bool)
  | other

/-- The fields of an account. -/
abbrev Account := OrdMap Text AccountValue

/-- The field may hold a secret. -/
def isSensitiveAccountField (name : Text) : Bool :=
  ["authorization", "cookie", "refresh", "secret", "token"].any fun word =>
    word.toList <:+: toAsciiLowercase name

/-- The assignment of one field; that of `__proto__` makes no field. -/
def keepAccountField (result : Account) (field : Text × AccountValue) : Account :=
  let name := trim field.1
  if name = [] ∨ isSensitiveAccountField name = true ∨ name = "__proto__".toList then result
  else
    match field.2 with
    | .other => result
    | value => result.set name value

def normalizeAccount (account : List (Text × AccountValue)) : Account :=
  account.foldl keepAccountField OrdMap.empty

/-! ### Logins and sessions -/

/-- The states of a device login. -/
inductive LoginStatus
  | pending | denied | expired | cancelled | authorized | loggedOut
  deriving DecidableEq

/-- A device login of the broker. -/
structure DeviceLogin where
  account : Option Account
  accountHint : Option Account
  completedAt : Option ℕ
  createdAt : ℕ
  expiresAt : ℕ
  intervalMs : ℕ
  loginId : TrimmedText
  scopes : List TrimmedText
  secretRef : TrimmedText
  sessionId : Option TrimmedText
  status : LoginStatus
  userCode : TrimmedText
  verificationUri : TrimmedText
  verificationUriComplete : Option TrimmedText

/-- The states of a session. -/
inductive SessionStatus
  | authorized | loggedOut
  deriving DecidableEq

/-- A session of the broker. -/
structure AuthSession where
  account : Account
  completedAt : ℕ
  loggedOutAt : Option ℕ
  scopes : List TrimmedText
  secretRef : TrimmedText
  sessionId : TrimmedText
  status : SessionStatus

/-- A record of a secret provider. -/
structure SecretRecord where
  type : Text
  value : Text
  deriving DecidableEq

/-- The state of the broker. -/
structure AuthBroker where
  defaultExpiresInMs : ℕ
  defaultIntervalMs : ℕ
  defaultVerificationUri : TrimmedText
  loginSequence : ℕ
  logins : OrdMap TrimmedText DeviceLogin
  secrets : OrdMap TrimmedText SecretRecord
  sessionRefs : OrdMap TrimmedText TrimmedText
  sessionSequence : ℕ
  sessions : OrdMap TrimmedText AuthSession

/-- The options of a login; what is missing has a default. -/
structure LoginOptions where
  loginId : Option Text
  secretRef : Option Text
  userCode : Option Text
  expiresAt : Option NumberValue
  accountHint : Option (List (Text × AccountValue))
  intervalMs : Option NumberValue
  scopes : Option (ArrayValue Text)
  verificationUri : Option Text
  verificationUriComplete : Option Text

/-- The options of a completion. The token is the text that its value comes to. -/
structure CompletionOptions where
  token : Text
  sessionId : Option Text
  account : List (Text × AccountValue)

/-- Why a signal is aborted. -/
inductive AbortReason
  | timeout | other

/-- A call; a completion looks at the clock a second time. -/
inductive AuthCall
  | startDeviceLogin (options : LoginOptions)
  | pollDeviceLogin (loginId : Text) (aborted : Option AbortReason)
  | completeDeviceLogin (loginId : Text) (options : CompletionOptions) (completedAt : ℕ)
  | denyDeviceLogin (loginId : Text)
  | cancelDeviceLogin (loginId : Text)
  | logout (sessionIdOrSecretRef : Text)
  | getBearerToken (secretRef : Text)

/-- A call with the time it is made at. -/
structure TimedAuthCall where
  now : ℕ
  call : AuthCall

/-- What a call of the broker returns. -/
inductive AuthAnswer
  | login (login : DeviceLogin)
  | session (session : AuthSession)
  | token (token : Text)

/-- The number in decimals, with zeros in front up to four digits. -/
def paddedNumber (n : ℕ) : Text :=
  let digits := Nat.toDigits 10 n
  List.replicate (4 - digits.length) '0' ++ digits

def loginExists : AuthError := authError "auth_failure" "browser device login already exists"

def sessionExists : AuthError := authError "auth_failure" "browser auth session already exists"

namespace AuthBroker

/-- A broker with secrets it was given. -/
def new (expiresInMs intervalMs : ℕ) (verificationUri : TrimmedText)
    (secrets : OrdMap TrimmedText SecretRecord) : AuthBroker where
  defaultExpiresInMs := expiresInMs
  defaultIntervalMs := intervalMs
  defaultVerificationUri := verificationUri
  loginSequence := 0
  logins := OrdMap.empty
  secrets := secrets
  sessionRefs := OrdMap.empty
  sessionSequence := 0
  sessions := OrdMap.empty

variable (b : AuthBroker)

/-! ### Starting -/

def defaultLoginId : Text := "device-login-".toList ++ Nat.toDigits 10 (b.loginSequence + 1)

/-- The login that is about to be started, when its number has been taken. -/
def newLogin (now : ℕ) (loginId : TrimmedText) (options : LoginOptions) :
    Except AuthError DeviceLogin := do
  let secretRef ← normalizeSecretRef (options.secretRef.getD ("codex-model-".toList ++ loginId.1))
  let userCode ← nonEmptyText
    (options.userCode.getD ("CODEX-".toList ++ paddedNumber b.loginSequence))
    "browser device user code is required"
  let expiresAt ← nonNegativeInteger
    (options.expiresAt.getD (.finite (now + b.defaultExpiresInMs : ℕ)))
    "browser device login expiry is invalid"
  if expiresAt ≤ now then .error (authError "auth_expired" "browser device login expired")
  else
    let intervalMs ← positiveInteger (options.intervalMs.getD (.finite b.defaultIntervalMs))
      "browser device login interval is invalid"
    let scopes ← normalizeScopes options.scopes
    let verificationUri ← nonEmptyText (options.verificationUri.getD b.defaultVerificationUri.1)
      "browser device verification URI is required"
    let verificationUriComplete ← options.verificationUriComplete.mapM fun uri =>
      nonEmptyText uri "browser device verification URI is required"
    return {
      account := none
      accountHint := options.accountHint.map normalizeAccount
      completedAt := none
      createdAt := now
      expiresAt
      intervalMs
      loginId
      scopes
      secretRef
      sessionId := none
      status := .pending
      userCode
      verificationUri
      verificationUriComplete }

/-- Starts a login. -/
def startDeviceLogin (now : ℕ) (options : LoginOptions) :
    AuthBroker × Except AuthError DeviceLogin :=
  match nonEmptyText (options.loginId.getD b.defaultLoginId)
      "browser device login id is required" with
  | .error error => (b, .error error)
  | .ok loginId =>
    if b.logins.has loginId = true then (b, .error loginExists)
    else
      let numbered := { b with loginSequence := b.loginSequence + 1 }
      match numbered.newLogin now loginId options with
      | .error error => (numbered, .error error)
      | .ok login => ({ numbered with logins := b.logins.set loginId login }, .ok login)

/-! ### Pending logins -/

/-- The login with its key. -/
def requireLogin (loginId : Text) : Except AuthError (TrimmedText × DeviceLogin) := do
  let key ← nonEmptyText loginId "browser device login id is required"
  match b.logins.get key with
  | some login => return (key, login)
  | none => .error (authError "auth_missing_login" "browser device login is unavailable")

/-- The login is pending and its time is over. -/
def Stale (login : DeviceLogin) (now : ℕ) : Prop :=
  login.status = .pending ∧ login.expiresAt ≤ now

/-- The clock decides it. -/
instance (login : DeviceLogin) (now : ℕ) : Decidable (Stale login now) :=
  inferInstanceAs (Decidable (_ ∧ _))

/-- The login with another status. -/
def withStatus (key : TrimmedText) (login : DeviceLogin) (status : LoginStatus) : AuthBroker :=
  { b with logins := b.logins.set key { login with status := status } }

/-- Notes that a login has expired. -/
def updateExpiredLogin (key : TrimmedText) (login : DeviceLogin) (now : ℕ) :
    AuthBroker × DeviceLogin :=
  if Stale login now then (b.withStatus key login .expired, { login with status := .expired })
  else (b, login)

/-- The error of a login in another state. -/
def notPending : LoginStatus → AuthError
  | .denied => authError "auth_denied" "browser device login was denied"
  | .expired => authError "auth_expired" "browser device login expired"
  | .cancelled => authError "cancelled" "browser device login was cancelled"
  | .authorized => authError "auth_failure" "browser device login is already authorized"
  | .loggedOut => authError "auth_failure" "browser device login is logged out"
  | .pending => authError "auth_failure" "browser device login is unavailable"

/-- The login, if it is still pending. -/
def requirePendingLogin (now : ℕ) (loginId : Text) :
    AuthBroker × Except AuthError (TrimmedText × DeviceLogin) :=
  match b.requireLogin loginId with
  | .error error => (b, .error error)
  | .ok (key, login) =>
    match b.updateExpiredLogin key login now with
    | (updated, login) =>
      (updated, if login.status = .pending then .ok (key, login)
        else .error (notPending login.status))

/-- Fails behind an abort. -/
def checkAuthSignal (aborted : Option AbortReason) : Except AuthError Unit :=
  match aborted with
  | none => .ok ()
  | some .timeout => .error (authError "timeout" "browser device login timed out")
  | some .other => .error (authError "cancelled" "browser device login was cancelled")

/-- The state of a login. -/
def pollDeviceLogin (now : ℕ) (loginId : Text) (aborted : Option AbortReason) :
    AuthBroker × Except AuthError DeviceLogin :=
  match checkAuthSignal aborted >>= fun _ => b.requireLogin loginId with
  | .error error => (b, .error error)
  | .ok (key, login) =>
    let updated := b.updateExpiredLogin key login now
    (updated.1, .ok updated.2)

/-- Denies a login. -/
def denyDeviceLogin (now : ℕ) (loginId : Text) : AuthBroker × Except AuthError DeviceLogin :=
  match b.requirePendingLogin now loginId with
  | (updated, .error error) => (updated, .error error)
  | (updated, .ok (key, login)) =>
    (updated.withStatus key login .denied, .ok { login with status := .denied })

/-! ### Completing -/

def defaultSessionId : Text := "device-session-".toList ++ Nat.toDigits 10 (b.sessionSequence + 1)

/-- The token and the id of the session that is about to be opened. -/
def newSession (options : CompletionOptions) : Except AuthError (Text × TrimmedText) := do
  let token ← normalizeAuthBearerToken options.token
  let sessionId ← nonEmptyText (options.sessionId.getD b.defaultSessionId)
    "browser auth session id is required"
  if b.sessions.has sessionId = true then .error sessionExists else return (token, sessionId)

/-- The broker after a login has been completed. -/
def openSession (key : TrimmedText) (login : DeviceLogin) (token : Text) (sessionId : TrimmedText)
    (account : Account) (completedAt : ℕ) : AuthBroker :=
  { b with
    sessionSequence := b.sessionSequence + 1
    secrets := b.secrets.set login.secretRef ⟨"bearer".toList, token⟩
    sessions := b.sessions.set sessionId
      { account
        completedAt
        loggedOutAt := none
        scopes := login.scopes
        secretRef := login.secretRef
        sessionId
        status := .authorized }
    sessionRefs := b.sessionRefs.set login.secretRef sessionId
    logins := b.logins.set key
      { login with
        account := some account
        completedAt := some completedAt
        sessionId := some sessionId
        status := .authorized } }

/-- Completes a login with a session. -/
def completeDeviceLogin (now : ℕ) (loginId : Text) (options : CompletionOptions) (completedAt : ℕ) :
    AuthBroker × Except AuthError DeviceLogin :=
  match b.requirePendingLogin now loginId with
  | (updated, .error error) => (updated, .error error)
  | (updated, .ok (key, login)) =>
    match updated.newSession options with
    | .error error => (updated, .error error)
    | .ok (token, sessionId) =>
      let account := normalizeAccount options.account
      (updated.openSession key login token sessionId account completedAt,
        .ok { login with
          account := some account
          completedAt := some completedAt
          sessionId := some sessionId
          status := .authorized })

/-! ### Sessions -/

def sessionBySecretRef (secretRef : TrimmedText) : Option AuthSession :=
  (b.sessionRefs.get secretRef).bind b.sessions.get

/-- The session of an id or a reference. -/
def requireSession (sessionIdOrSecretRef : Text) : Except AuthError AuthSession := do
  let key ← nonEmptyText sessionIdOrSecretRef "browser auth session id is required"
  match (b.sessions.get key).or (b.sessionBySecretRef key) with
  | some session => return session
  | none => .error (authError "auth_missing_token" "browser auth session is unavailable")

/-- The broker after a session has been logged out. -/
def closeSession (now : ℕ) (session : AuthSession) : AuthBroker :=
  { b with
    secrets := b.secrets.delete session.secretRef
    sessions := b.sessions.set session.sessionId
      { session with loggedOutAt := some now, status := .loggedOut }
    logins := b.logins.mapVals fun _ login =>
      if login.sessionId = some session.sessionId then { login with status := .loggedOut }
      else login }

/-- Logs a session out. -/
def logout (now : ℕ) (sessionIdOrSecretRef : Text) : AuthBroker × Except AuthError AuthSession :=
  match b.requireSession sessionIdOrSecretRef with
  | .error error => (b, .error error)
  | .ok session =>
    (b.closeSession now session, .ok { session with loggedOutAt := some now, status := .loggedOut })

/-- An authorized login is logged out with its session. -/
def cancelDeviceLogin (now : ℕ) (loginId : Text) : AuthBroker × Except AuthError DeviceLogin :=
  match b.requireLogin loginId with
  | .error error => (b, .error error)
  | .ok (key, login) =>
    match login.status with
    | .authorized =>
      match b.logout now (login.sessionId.getD login.secretRef).1 with
      | (closed, .error error) => (closed, .error error)
      | (closed, .ok _) => (closed, .ok ((closed.logins.get key).getD login))
    | .pending =>
      (b.withStatus key login .cancelled, .ok { login with status := .cancelled })
    | _ => (b, .ok login)

/-- The token of a reference. -/
def getBearerToken (secretRef : Text) : Except AuthError Text := do
  let ref ← normalizeSecretRef secretRef
  match b.sessionBySecretRef ref, b.secrets.get ref with
  | some session, some record =>
    if session.status ≠ .authorized then
      .error (authError "auth_missing_token" "browser bearer secret is unavailable")
    else if record.type ≠ "bearer".toList then
      .error (secretError "browser bearer secret is unavailable")
    else return record.value
  | _, _ => .error (authError "auth_missing_token" "browser bearer secret is unavailable")

/-! ### Calls -/

/-- The broker after a call, and its answer. -/
def perform (e : TimedAuthCall) : AuthBroker × Except AuthError AuthAnswer :=
  match e.call with
  | .startDeviceLogin options => (b.startDeviceLogin e.now options).map id (Except.map .login)
  | .pollDeviceLogin loginId aborted =>
    (b.pollDeviceLogin e.now loginId aborted).map id (Except.map .login)
  | .completeDeviceLogin loginId options completedAt =>
    (b.completeDeviceLogin e.now loginId options completedAt).map id (Except.map .login)
  | .denyDeviceLogin loginId => (b.denyDeviceLogin e.now loginId).map id (Except.map .login)
  | .cancelDeviceLogin loginId => (b.cancelDeviceLogin e.now loginId).map id (Except.map .login)
  | .logout key => (b.logout e.now key).map id (Except.map .session)
  | .getBearerToken secretRef => (b, (b.getBearerToken secretRef).map .token)

end AuthBroker

end WasmHost

import WasmHost.Lib.Except
import WasmHost.Lib.Run
import WasmHost.Web.DeviceLogin

/-!
# Whose token a reference gives

Runs of the broker, with what a reader of the calls would note down: which sessions were opened, for
which reference and with which token, and which of them were logged out.

* `AuthRun.Owns`: what a call must not do to the tokens, logins and sessions that are there.
* `AuthRun.Sound`: the invariant that ties the maps of the broker to the notes.
* `AuthRun.owns_iff_careful`: the calls of a run keep the law exactly when they are careful.
-/

namespace WasmHost

open List AuthBroker OrdMap

/-- The states that a login may move to, or stay in. -/
def LoginStatus.MovesTo (status next : LoginStatus) : Prop :=
  next = status ∨
    status = .pending ∧ next ∈ [.authorized, .denied, .expired, .cancelled] ∨
    status = .authorized ∧ next = .loggedOut

/-- A session that was opened. -/
structure Completion where
  sessionId : TrimmedText
  secretRef : TrimmedText
  token : Text
  deriving DecidableEq

/-- A broker with the sessions that were opened, the latest first, and the ones logged out. -/
structure AuthRun where
  broker : AuthBroker
  completions : List Completion
  ended : List TrimmedText

namespace AuthRun

def start (broker : AuthBroker) : AuthRun := ⟨broker, [], []⟩

/-- The session that a completion opens. -/
def opened (call : AuthCall) (answer : Except AuthError AuthAnswer) : List Completion :=
  match call, answer with
  | .completeDeviceLogin _ options _, .ok (.login login) =>
      login.sessionId.toList.map fun id => ⟨id, login.secretRef, options.token⟩
  | _, _ => []

/-- The session that is logged out by its name, or with its login. -/
def closed (call : AuthCall) (answer : Except AuthError AuthAnswer) : List TrimmedText :=
  match call, answer with
  | .logout _, .ok (.session session) => [session.sessionId]
  | .cancelDeviceLogin _, .ok (.login login) =>
      if login.status = .loggedOut then login.sessionId.toList else []
  | _, _ => []

variable (r : AuthRun)

/-- The session that was opened last for a reference. -/
def latest (ref : TrimmedText) : Option Completion := r.completions.find? (·.secretRef = ref)

/-- The run behind a call. -/
def step (e : TimedAuthCall) : AuthRun :=
  ⟨(r.broker.perform e).1, opened e.call (r.broker.perform e).2 ++ r.completions,
    closed e.call (r.broker.perform e).2 ++ r.ended⟩

/-! ### The law -/

/-- A reference gives the token of the session that was opened last for it, unless that was logged
out. -/
def GivesOwnTokens : Prop :=
  ∀ ref token, r.broker.getBearerToken ref = .ok token ↔
    ∃ key c, TrimmedText.ofText? ref = some key ∧ r.latest key = some c ∧ c.token = token ∧
      c.sessionId ∉ r.ended

/-- The law of a call. -/
structure Owns (e : TimedAuthCall) : Prop where
  tokens : (r.step e).GivesOwnTokens
  others : ∀ ref c, r.latest ref = some c → c.sessionId ∉ closed e.call (r.broker.perform e).2 →
    (∀ loginId options at', e.call ≠ .completeDeviceLogin loginId options at') →
    r.broker.getBearerToken ref.1 = .ok c.token →
      (r.step e).broker.getBearerToken ref.1 = .ok c.token
  moves : ∀ key login, r.broker.logins.get key = some login →
    ∃ next, (r.step e).broker.logins.get key = some next ∧ login.status.MovesTo next.status
  starts : ∀ key login, r.broker.logins.get key = none →
    (r.step e).broker.logins.get key = some login → login.status = .pending
  rejected : ∀ error, (r.broker.perform e).2 = .error error →
    (r.step e).broker.logins = r.broker.logins ∧ (r.step e).broker.sessions = r.broker.sessions ∧
      (r.step e).broker.secrets = r.broker.secrets
  loginId : ∀ options, e.call = .startDeviceLogin options → options.loginId = none →
    (r.broker.perform e).2 ≠ .error loginExists
  sessionId : ∀ loginId options at', e.call = .completeDeviceLogin loginId options at' →
    options.sessionId = none → (r.broker.perform e).2 ≠ .error sessionExists

end AuthRun

/-! ### The condition -/

namespace AuthBroker

variable (b : AuthBroker) {value loginId : Text} {message : String} {login : DeviceLogin} {now : ℕ}
    {options : CompletionOptions} {id : TrimmedText} {session : AuthSession}

/-- The login is pending, and expires with the call. -/
def ExpiresAt (now : ℕ) (loginId : Text) : Prop :=
  ∃ key login, b.requireLogin loginId = .ok (key, login) ∧ Stale login now

/-- The id of a new login, if it is the default one, is free. -/
def FreeLoginId (options : LoginOptions) : Prop :=
  options.loginId = none →
    ∀ id, TrimmedText.ofText? b.defaultLoginId = some id → b.logins.has id = false

/-- The id of a new session, if it is the default one, is free, or the call is rejected before. -/
def FreeSessionId (loginId : Text) (options : CompletionOptions) : Prop :=
  options.sessionId = none →
    (∃ key login, b.requireLogin loginId = .ok (key, login) ∧ login.status = .pending) →
    (∃ token, normalizeAuthBearerToken options.token = .ok token) →
      ∀ id, TrimmedText.ofText? b.defaultSessionId = some id → b.sessions.has id = false

/-- The reference of the session leads to itself, or to a session that was logged out. -/
def Spares (session : AuthSession) : Prop :=
  ∀ other, b.sessionBySecretRef session.secretRef = some other →
    other.sessionId = session.sessionId ∨ other.status = .loggedOut

/-- The session that a call logs out. -/
def Closes (call : AuthCall) (session : AuthSession) : Prop :=
  match call with
  | .logout key => b.requireSession key = .ok session
  | .cancelDeviceLogin loginId => ∃ key login, b.requireLogin loginId = .ok (key, login) ∧
      login.status = .authorized ∧
      b.requireSession (login.sessionId.getD login.secretRef).1 = .ok session
  | _ => False

/-- No session is logged out whose reference another one has taken and still has, no default id is
taken, and no login expires in a call that it makes fail. -/
def Careful (e : TimedAuthCall) : Prop :=
  (∀ session, b.Closes e.call session → b.Spares session) ∧
    match e.call with
    | .startDeviceLogin options => b.FreeLoginId options
    | .completeDeviceLogin loginId options _ =>
        ¬b.ExpiresAt e.now loginId ∧ b.FreeSessionId loginId options
    | .denyDeviceLogin loginId => ¬b.ExpiresAt e.now loginId
    | _ => True

/-- The login that the call completes or denies expires with it. -/
def Expires (e : TimedAuthCall) : Prop :=
  match e.call with
  | .completeDeviceLogin loginId _ _ | .denyDeviceLogin loginId => b.ExpiresAt e.now loginId
  | _ => False

/-! ### What calls do -/

variable {b}

@[simp]
theorem ofText?_trimmed (t : TrimmedText) : TrimmedText.ofText? t.1 = some t := by
  obtain ⟨t, htrim, hne⟩ := t
  unfold TrimmedText.ofText?
  rw [dif_neg (by rw [htrim]; exact hne)]
  simp [htrim]

theorem nonEmptyText_eq_ok_iff {text : TrimmedText} :
    nonEmptyText value message = .ok text ↔ TrimmedText.ofText? value = some text := by
  unfold nonEmptyText
  split <;> simp_all

theorem requireLogin_eq_ok_iff {key : TrimmedText} :
    b.requireLogin loginId = .ok (key, login) ↔
      TrimmedText.ofText? loginId = some key ∧ b.logins.get key = some login := by
  constructor
  · intro h
    obtain ⟨key', hkey, hlogin⟩ := Except.bind_eq_ok_iff.1 h
    split at hlogin
    next found hfound =>
      obtain ⟨rfl, rfl⟩ := Prod.mk.inj (Except.ok.inj hlogin)
      exact ⟨nonEmptyText_eq_ok_iff.1 hkey, hfound⟩
    · cases hlogin
  · rintro ⟨hkey, hlogin⟩
    refine Except.bind_eq_ok_iff.2 ⟨key, nonEmptyText_eq_ok_iff.2 hkey, ?_⟩
    simp only [hlogin]
    rfl

/-- A new login is pending and has no session. -/
theorem newLogin_pending {loginId : TrimmedText} {options : LoginOptions}
    (h : b.newLogin now loginId options = .ok login) :
    login.status = .pending ∧ login.sessionId = none := by
  obtain ⟨secretRef, -, h⟩ := Except.bind_eq_ok_iff.1 h
  obtain ⟨userCode, -, h⟩ := Except.bind_eq_ok_iff.1 h
  obtain ⟨expiresAt, -, h⟩ := Except.bind_eq_ok_iff.1 h
  split at h
  · cases h
  obtain ⟨intervalMs, -, h⟩ := Except.bind_eq_ok_iff.1 h
  obtain ⟨scopes, -, h⟩ := Except.bind_eq_ok_iff.1 h
  obtain ⟨verificationUri, -, h⟩ := Except.bind_eq_ok_iff.1 h
  obtain ⟨complete, -, h⟩ := Except.bind_eq_ok_iff.1 h
  cases h
  exact ⟨rfl, rfl⟩

theorem nonEmptyText_ne_error {error : AuthError} (h : authError "auth_failure" message ≠ error) :
    nonEmptyText value message ≠ .error error := by
  unfold nonEmptyText
  split
  · exact nofun
  · simpa using h

/-- Once it has its id, a new login does not fail because an id is taken. -/
theorem newLogin_ne_loginExists (b : AuthBroker) (now : ℕ) (loginId : TrimmedText)
    (options : LoginOptions) : b.newLogin now loginId options ≠ .error loginExists := by
  refine Except.bind_ne_error ?_ fun secretRef => ?_
  · unfold normalizeSecretRef
    split <;> simp [secretError, loginExists, authError]
  refine Except.bind_ne_error (nonEmptyText_ne_error (by decide)) fun userCode => ?_
  refine Except.bind_ne_error ?_ fun expiresAt => ?_
  · unfold nonNegativeInteger
    split
    · split_ifs <;> simp [loginExists, authError]
    · simp [loginExists, authError]
  split_ifs
  · simp [loginExists, authError]
  refine Except.bind_ne_error ?_ fun intervalMs => ?_
  · unfold positiveInteger
    split
    · split_ifs <;> simp [loginExists, authError]
    · simp [loginExists, authError]
  refine Except.bind_ne_error ?_ fun scopes => ?_
  · unfold normalizeScopes
    split
    · exact nofun
    · simp [loginExists, authError]
    · exact Except.mapM_ne_error fun _ _ => nonEmptyText_ne_error (by decide)
  refine Except.bind_ne_error (nonEmptyText_ne_error (by decide)) fun verificationUri => ?_
  refine Except.bind_ne_error ?_ nofun
  cases options.verificationUriComplete with
  | none => exact nofun
  | some => exact Except.bind_ne_error (nonEmptyText_ne_error (by decide)) nofun

/-- A login fails because an id is taken exactly when its own id is. -/
theorem startDeviceLogin_eq_loginExists_iff (b : AuthBroker) (now : ℕ) (options : LoginOptions) :
    (b.startDeviceLogin now options).2 = .error loginExists ↔
      ∃ id, TrimmedText.ofText? (options.loginId.getD b.defaultLoginId) = some id ∧
        b.logins.has id = true := by
  unfold startDeviceLogin
  split
  next error herror =>
    have hne : error ≠ loginExists := by
      rintro rfl
      exact nonEmptyText_ne_error (by decide) herror
    refine iff_of_false (by simpa using hne) ?_
    rintro ⟨id, hid, -⟩
    rw [nonEmptyText_eq_ok_iff.2 hid] at herror
    cases herror
  next id hid =>
    have hid := nonEmptyText_eq_ok_iff.1 hid
    split_ifs with hhas
    · exact iff_of_true rfl ⟨id, hid, hhas⟩
    · refine iff_of_false ?_ ?_
      · have hnew := newLogin_ne_loginExists { b with loginSequence := b.loginSequence + 1 } now id
          options
        cases hstart : newLogin { b with loginSequence := b.loginSequence + 1 } now id options with
        | error =>
          rw [hstart] at hnew
          simpa only [hstart] using hnew
        | ok => simp only [hstart, reduceCtorEq, not_false_eq_true]
      · rintro ⟨id', hid', hhas'⟩
        obtain rfl := Option.some.inj (hid.symm.trans hid')
        exact hhas hhas'

theorem startDeviceLogin_cases (b : AuthBroker) (now : ℕ) (options : LoginOptions) :
    (∃ error n, b.startDeviceLogin now options = ({ b with loginSequence := n }, .error error)) ∨
      ∃ n key login, b.startDeviceLogin now options =
          ({ b with loginSequence := n, logins := b.logins.set key login }, .ok login) ∧
        b.logins.get key = none ∧ login.status = .pending ∧ login.sessionId = none := by
  unfold startDeviceLogin
  split
  next error _ => exact .inl ⟨error, b.loginSequence, rfl⟩
  next key _ =>
    split_ifs with hhas
    · exact .inl ⟨loginExists, b.loginSequence, rfl⟩
    · cases hnew : ({ b with loginSequence := b.loginSequence + 1 } : AuthBroker).newLogin now key
          options with
      | error error => exact .inl ⟨error, b.loginSequence + 1, by simp only [hnew]⟩
      | ok login =>
        refine .inr ⟨b.loginSequence + 1, key, login, by simp only [hnew], ?_,
          newLogin_pending hnew⟩
        exact (has_eq_false_iff _ _).1 (by simpa using hhas)

theorem requirePendingLogin_cases (b : AuthBroker) (now : ℕ) (loginId : Text) :
    (∃ error, b.requirePendingLogin now loginId = (b, .error error)) ∨
      (∃ key login error, b.ExpiresAt now loginId ∧ b.logins.get key = some login ∧
        login.status = .pending ∧
          b.requirePendingLogin now loginId = (b.withStatus key login .expired, .error error)) ∨
      ∃ key login, b.logins.get key = some login ∧ login.status = .pending ∧
        b.requirePendingLogin now loginId = (b, .ok (key, login)) := by
  unfold requirePendingLogin
  cases hrequire : b.requireLogin loginId with
  | error error => exact .inl ⟨error, rfl⟩
  | ok found =>
    obtain ⟨key, login⟩ := found
    have hlogin := (requireLogin_eq_ok_iff.1 hrequire).2
    by_cases hstale : Stale login now
    · refine .inr (.inl ⟨key, login, notPending .expired, ⟨key, login, hrequire, hstale⟩,
        hlogin, hstale.1, ?_⟩)
      simp only [updateExpiredLogin, if_pos hstale]
      rfl
    · by_cases hpending : login.status = .pending
      · refine .inr (.inr ⟨key, login, hlogin, hpending, ?_⟩)
        simp only [updateExpiredLogin, if_neg hstale, if_pos hpending]
      · refine .inl ⟨notPending login.status, ?_⟩
        simp only [updateExpiredLogin, if_neg hstale, if_neg hpending]

theorem pollDeviceLogin_cases (b : AuthBroker) (now : ℕ) (loginId : Text)
    (aborted : Option AbortReason) :
    (∃ answer, b.pollDeviceLogin now loginId aborted = (b, answer)) ∨
      ∃ key login, b.logins.get key = some login ∧ login.status = .pending ∧
        b.pollDeviceLogin now loginId aborted =
          (b.withStatus key login .expired, .ok { login with status := .expired }) := by
  unfold pollDeviceLogin
  cases hrequire : checkAuthSignal aborted >>= fun _ => b.requireLogin loginId with
  | error error => exact .inl ⟨.error error, rfl⟩
  | ok found =>
    obtain ⟨key, login⟩ := found
    by_cases hstale : Stale login now
    · obtain ⟨-, -, hlogin⟩ := Except.bind_eq_ok_iff.1 hrequire
      refine .inr ⟨key, login, (requireLogin_eq_ok_iff.1 hlogin).2, hstale.1, ?_⟩
      simp only [updateExpiredLogin, if_pos hstale]
    · refine .inl ⟨.ok login, ?_⟩
      simp only [updateExpiredLogin, if_neg hstale]

theorem newSession_eq_ok {token : Text} (h : b.newSession options = .ok (token, id)) :
    options.token = token ∧ b.sessions.get id = none := by
  obtain ⟨token', htoken, h⟩ := Except.bind_eq_ok_iff.1 h
  obtain ⟨id', -, h⟩ := Except.bind_eq_ok_iff.1 h
  split at h
  · cases h
  next hhas =>
    obtain ⟨rfl, rfl⟩ := Prod.mk.inj (Except.ok.inj h)
    refine ⟨?_, (has_eq_false_iff _ _).1 (by simpa using hhas)⟩
    unfold normalizeAuthBearerToken at htoken
    split_ifs at htoken
    exact Except.ok.inj htoken

theorem completeDeviceLogin_cases (b : AuthBroker) (now : ℕ) (loginId : Text)
    (options : CompletionOptions) (completedAt : ℕ) :
    (∃ error, b.completeDeviceLogin now loginId options completedAt = (b, .error error)) ∨
      (∃ key login error, b.ExpiresAt now loginId ∧ b.logins.get key = some login ∧
        login.status = .pending ∧ b.completeDeviceLogin now loginId options completedAt =
          (b.withStatus key login .expired, .error error)) ∨
      ∃ key login id account answer, b.logins.get key = some login ∧ login.status = .pending ∧
        b.sessions.get id = none ∧
        b.completeDeviceLogin now loginId options completedAt =
          (b.openSession key login options.token id account completedAt, .ok answer) ∧
        answer.sessionId = some id ∧ answer.secretRef = login.secretRef := by
  unfold completeDeviceLogin
  rcases b.requirePendingLogin_cases now loginId with
    ⟨error, hpending⟩ | ⟨key, login, error, hexpires, hlogin, hstatus, hpending⟩ |
      ⟨key, login, hlogin, hstatus, hpending⟩ <;> rw [hpending]
  · exact .inl ⟨error, rfl⟩
  · exact .inr (.inl ⟨key, login, error, hexpires, hlogin, hstatus, rfl⟩)
  · cases hnew : b.newSession options with
    | error error => exact .inl ⟨error, by simp only [hnew]⟩
    | ok found =>
      obtain ⟨token, id⟩ := found
      obtain ⟨rfl, hfree⟩ := newSession_eq_ok hnew
      refine .inr (.inr ⟨key, login, id, normalizeAccount options.account,
        { login with
          account := some (normalizeAccount options.account)
          completedAt := some completedAt
          sessionId := some id
          status := .authorized },
        hlogin, hstatus, hfree, by simp only [hnew], rfl, rfl⟩)

theorem newSession_eq_sessionExists_iff :
    b.newSession options = .error sessionExists ↔
      (∃ token, normalizeAuthBearerToken options.token = .ok token) ∧
        ∃ id, TrimmedText.ofText? (options.sessionId.getD b.defaultSessionId) = some id ∧
          b.sessions.has id = true := by
  constructor
  · intro h
    rcases Except.bind_eq_error_iff.1 h with htoken | ⟨token, htoken, h⟩
    · unfold normalizeAuthBearerToken at htoken
      split_ifs at htoken
      simp [sessionExists, authError] at htoken
    rcases Except.bind_eq_error_iff.1 h with hid | ⟨id, hid, h⟩
    · exact absurd hid (nonEmptyText_ne_error (by decide))
    split_ifs at h with hhas
    · exact ⟨⟨token, htoken⟩, id, nonEmptyText_eq_ok_iff.1 hid, hhas⟩
    · cases h
  · rintro ⟨⟨token, htoken⟩, id, hid, hhas⟩
    refine Except.bind_eq_error_iff.2 (.inr ⟨token, htoken, ?_⟩)
    refine Except.bind_eq_error_iff.2 (.inr ⟨id, nonEmptyText_eq_ok_iff.2 hid, ?_⟩)
    rw [if_pos hhas]

theorem requireLogin_ne_sessionExists (b : AuthBroker) (loginId : Text) :
    b.requireLogin loginId ≠ .error sessionExists := by
  refine Except.bind_ne_error (nonEmptyText_ne_error (by decide)) fun key => ?_
  split
  · exact nofun
  · simp [sessionExists, authError]

/-- A completion of a login that does not expire fails because an id is taken exactly when the login
is pending, there is a token, and the id of the session is taken. -/
theorem completeDeviceLogin_eq_sessionExists_iff (hexpires : ¬b.ExpiresAt now loginId)
    (options : CompletionOptions) (completedAt : ℕ) :
    (b.completeDeviceLogin now loginId options completedAt).2 = .error sessionExists ↔
      (∃ key login, b.requireLogin loginId = .ok (key, login) ∧ login.status = .pending) ∧
        (∃ token, normalizeAuthBearerToken options.token = .ok token) ∧
          ∃ id, TrimmedText.ofText? (options.sessionId.getD b.defaultSessionId) = some id ∧
            b.sessions.has id = true := by
  unfold completeDeviceLogin requirePendingLogin
  cases hrequire : b.requireLogin loginId with
  | error =>
    refine iff_of_false ?_ (by simp)
    have hne := b.requireLogin_ne_sessionExists loginId
    rw [hrequire] at hne
    simpa using hne
  | ok found =>
    obtain ⟨key, login⟩ := found
    have hstale : ¬Stale login now := fun hstale => hexpires ⟨key, login, hrequire, hstale⟩
    simp only [updateExpiredLogin, if_neg hstale]
    by_cases hpending : login.status = .pending
    · rw [← newSession_eq_sessionExists_iff]
      simp only [if_pos hpending]
      rw [and_iff_right ⟨key, login, rfl, hpending⟩]
      cases hnew : b.newSession options with
      | error | ok => simp
    · simp only [if_neg hpending]
      refine iff_of_false ?_ ?_
      · cases hstatus : login.status <;> simp [notPending, sessionExists, authError]
      · rintro ⟨⟨key', login', hfound, hpending'⟩, -⟩
        obtain ⟨-, rfl⟩ := Prod.mk.inj (Except.ok.inj hfound)
        exact hpending hpending'

theorem denyDeviceLogin_cases (b : AuthBroker) (now : ℕ) (loginId : Text) :
    (∃ error, b.denyDeviceLogin now loginId = (b, .error error)) ∨
      (∃ key login error, b.ExpiresAt now loginId ∧ b.logins.get key = some login ∧
        login.status = .pending ∧
          b.denyDeviceLogin now loginId = (b.withStatus key login .expired, .error error)) ∨
      ∃ key login answer, b.logins.get key = some login ∧ login.status = .pending ∧
        b.denyDeviceLogin now loginId = (b.withStatus key login .denied, .ok answer) := by
  unfold denyDeviceLogin
  rcases b.requirePendingLogin_cases now loginId with
    ⟨error, hpending⟩ | ⟨key, login, error, hexpires, hlogin, hstatus, hpending⟩ |
      ⟨key, login, hlogin, hstatus, hpending⟩ <;> rw [hpending]
  · exact .inl ⟨error, rfl⟩
  · exact .inr (.inl ⟨key, login, error, hexpires, hlogin, hstatus, rfl⟩)
  · exact .inr (.inr ⟨key, login, _, hlogin, hstatus, rfl⟩)

theorem requireSession_eq_ok {key : Text} (h : b.requireSession key = .ok session) :
    ∃ id, b.sessions.get id = some session := by
  obtain ⟨key', -, h⟩ := Except.bind_eq_ok_iff.1 h
  split at h
  next found hfound =>
    obtain rfl := Except.ok.inj h
    cases hget : b.sessions.get key' with
    | some =>
      rw [hget, Option.some_or] at hfound
      exact ⟨key', by rw [hget, ← hfound]⟩
    | none =>
      rw [hget, Option.none_or] at hfound
      obtain ⟨id, -, hid⟩ := Option.bind_eq_some_iff.1 hfound
      exact ⟨id, hid⟩
  · cases h

/-- What is stored under the id of a session is found by it. -/
theorem requireSession_of_get (h : b.sessions.get id = some session) :
    b.requireSession id.1 = .ok session := by
  refine Except.bind_eq_ok_iff.2 ⟨id, nonEmptyText_eq_ok_iff.2 (ofText?_trimmed id), ?_⟩
  simp only [h, Option.some_or]
  rfl

end AuthBroker

namespace AuthRun

variable {r : AuthRun} {token : Text} {b : AuthBroker} {error : AuthError}

/-- What holds of the maps of the broker and the notes of the reader. -/
structure Sound (r : AuthRun) : Prop where
  refs : ∀ ref, r.broker.sessionRefs.get ref = (r.latest ref).map Completion.sessionId
  sessions : ∀ c ∈ r.completions, ∃ session, r.broker.sessions.get c.sessionId = some session ∧
    session.secretRef = c.secretRef ∧ (session.status = .loggedOut ↔ c.sessionId ∈ r.ended)
  recorded : ∀ id session, r.broker.sessions.get id = some session →
    session.sessionId = id ∧ ∃ c ∈ r.completions, c.sessionId = id
  secrets : ∀ ref c, r.latest ref = some c → c.sessionId ∉ r.ended →
    r.broker.secrets.get ref = some ⟨"bearer".toList, c.token⟩
  ended : ∀ id ∈ r.ended, ∃ c ∈ r.completions, c.sessionId = id
  logins : ∀ key login id, r.broker.logins.get key = some login → login.sessionId = some id →
    (login.status = .authorized ∨ login.status = .loggedOut) ∧
      ∃ c ∈ r.completions, c.sessionId = id
  loggedOut : ∀ key login id, r.broker.logins.get key = some login → login.sessionId = some id →
    login.status = .loggedOut → id ∈ r.ended
  authorized : ∀ key login, r.broker.logins.get key = some login → login.status = .authorized →
    login.sessionId ≠ none

/-- The changes that a call can make; it logs out sessions that satisfy `ok` only. -/
inductive Change (r : AuthRun) (ok : AuthSession → Prop) : AuthRun → Prop
  | idle (n : ℕ) :
      Change r ok ⟨{ r.broker with loginSequence := n }, r.completions, r.ended⟩
  | started (n : ℕ) (key : TrimmedText) (login : DeviceLogin)
      (hfree : r.broker.logins.get key = none) (hpending : login.status = .pending)
      (hsession : login.sessionId = none) :
      Change r ok ⟨{ r.broker with
        loginSequence := n, logins := r.broker.logins.set key login }, r.completions, r.ended⟩
  | settled (key : TrimmedText) (login : DeviceLogin) (status : LoginStatus)
      (hlogin : r.broker.logins.get key = some login) (hpending : login.status = .pending)
      (hstatus : status ∈ [.denied, .expired, .cancelled]) :
      Change r ok ⟨r.broker.withStatus key login status, r.completions, r.ended⟩
  | opened (key : TrimmedText) (login : DeviceLogin) (token : Text) (id : TrimmedText)
      (account : Account) (completedAt : ℕ) (hlogin : r.broker.logins.get key = some login)
      (hpending : login.status = .pending) (hfree : r.broker.sessions.get id = none) :
      Change r ok ⟨r.broker.openSession key login token id account completedAt,
        ⟨id, login.secretRef, token⟩ :: r.completions, r.ended⟩
  | closed (now : ℕ) (id : TrimmedText) (session : AuthSession)
      (hsession : r.broker.sessions.get id = some session) (hok : ok session) :
      Change r ok ⟨r.broker.closeSession now session, r.completions, session.sessionId :: r.ended⟩
  | again (id : TrimmedText) (hended : id ∈ r.ended) :
      Change r ok ⟨r.broker, r.completions, id :: r.ended⟩

theorem Change.same (ok : AuthSession → Prop) : Change r ok r := .idle r.broker.loginSequence

variable {key ref id : TrimmedText} {login : DeviceLogin} {e : TimedAuthCall}
    {session : AuthSession} {c : Completion} {ok : AuthSession → Prop} {r' : AuthRun}

/-- The session of an authorized login is there, so that a cancel logs it out. -/
theorem Sound.cancel_of_authorized (h : r.Sound) (now : ℕ) {loginId : Text}
    (hrequire : r.broker.requireLogin loginId = .ok (key, login))
    (hstatus : login.status = .authorized) : ∃ session,
      login.sessionId = some session.sessionId ∧
        r.broker.requireSession (login.sessionId.getD login.secretRef).1 = .ok session ∧
          r.broker.cancelDeviceLogin now loginId =
            (r.broker.closeSession now session, .ok { login with status := .loggedOut }) := by
  have hlogin := (requireLogin_eq_ok_iff.1 hrequire).2
  obtain ⟨id, hid⟩ := Option.ne_none_iff_exists'.1 (h.authorized key login hlogin hstatus)
  obtain ⟨-, c, hc, rfl⟩ := h.logins key login id hlogin hid
  obtain ⟨session, hsession, -⟩ := h.sessions c hc
  have hown := (h.recorded _ _ hsession).1
  have hfound := requireSession_of_get hsession
  have hlogout : r.broker.logout now c.sessionId.1 = (r.broker.closeSession now session,
      .ok { session with loggedOutAt := some now, status := .loggedOut }) := by
    simp only [logout, hfound]
  -- the login that the call answers is the one that was logged out
  have hanswer : (r.broker.closeSession now session).logins.get key =
      some { login with status := .loggedOut } := by
    simp only [closeSession, get_mapVals, hlogin, Option.map_some, hid, hown, if_true]
  refine ⟨session, hid.trans (congrArg some hown.symm), by rw [hid]; exact hfound, ?_⟩
  simp only [cancelDeviceLogin, hrequire, hstatus, hid, Option.getD_some, hlogout, hanswer]

/-- A call that logs a session out. -/
theorem Sound.step_of_closes (h : r.Sound) (hcloses : r.broker.Closes e.call session) :
    r.step e = ⟨r.broker.closeSession e.now session, r.completions,
      session.sessionId :: r.ended⟩ ∧
        closed e.call (r.broker.perform e).2 = [session.sessionId] := by
  obtain ⟨now, call⟩ := e
  cases call with
  | logout key =>
    have hfound : r.broker.requireSession key = .ok session := hcloses
    simp only [step, perform, logout, hfound]
    exact ⟨rfl, rfl⟩
  | cancelDeviceLogin loginId =>
    obtain ⟨key, login, hrequire, hstatus, hfound⟩ := hcloses
    obtain ⟨session', hid, hfound', hcancel⟩ := h.cancel_of_authorized now hrequire hstatus
    obtain rfl := Except.ok.inj (hfound.symm.trans hfound')
    have hclosed : closed (.cancelDeviceLogin loginId)
        (.ok (.login { login with status := .loggedOut })) = [session.sessionId] := by
      simp only [closed, hid, if_true]
      rfl
    simp only [step, perform, hcancel]
    refine ⟨?_, hclosed⟩
    show (⟨_, _, closed (.cancelDeviceLogin loginId)
      (.ok (.login { login with status := .loggedOut })) ++ r.ended⟩ : AuthRun) = _
    rw [hclosed]
    rfl
  | startDeviceLogin | pollDeviceLogin | completeDeviceLogin | denyDeviceLogin | getBearerToken =>
    exact hcloses.elim

/-- What a call does, in a state that is sound. One that fails changes the number of logins at most,
where no login expires in it. -/
theorem Sound.step_cases (h : r.Sound) (e : TimedAuthCall) :
    Change r (r.broker.Closes e.call) (r.step e) ∧
      ∀ error, (r.broker.perform e).2 = .error error →
        (∃ n, (r.step e).broker = { r.broker with loginSequence := n }) ∨ r.broker.Expires e := by
  obtain ⟨now, call⟩ := e
  cases call with
  | startDeviceLogin options =>
    rcases r.broker.startDeviceLogin_cases now options with
      ⟨error, n, hstart⟩ | ⟨n, key, login, hstart, hfree, hpending, hsession⟩
    · simp only [step, perform, hstart]
      exact ⟨.idle n, fun _ _ => .inl ⟨n, rfl⟩⟩
    · simp only [step, perform, hstart]
      exact ⟨.started n key login hfree hpending hsession, nofun⟩
  | pollDeviceLogin loginId aborted =>
    rcases r.broker.pollDeviceLogin_cases now loginId aborted with
      ⟨answer, hpoll⟩ | ⟨key, login, hlogin, hpending, hpoll⟩
    · simp only [step, perform, hpoll]
      exact ⟨.same _, fun _ _ => .inl ⟨_, rfl⟩⟩
    · simp only [step, perform, hpoll]
      exact ⟨.settled key login .expired hlogin hpending (by simp), nofun⟩
  | completeDeviceLogin loginId options completedAt =>
    rcases r.broker.completeDeviceLogin_cases now loginId options completedAt with
      ⟨error, hcomplete⟩ | ⟨key, login, error, hexpires, hlogin, hpending, hcomplete⟩ |
        ⟨key, login, id, account, answer, hlogin, hpending, hfree, hcomplete, hid, href⟩
    · simp only [step, perform, hcomplete]
      exact ⟨.same _, fun _ _ => .inl ⟨_, rfl⟩⟩
    · simp only [step, perform, hcomplete]
      exact ⟨.settled key login .expired hlogin hpending (by simp), fun _ _ => .inr hexpires⟩
    · simp only [step, perform, hcomplete]
      have hopened : opened (.completeDeviceLogin loginId options completedAt)
          (.ok (.login answer)) = [⟨id, login.secretRef, options.token⟩] := by
        simp only [opened, hid, href]
        rfl
      refine ⟨?_, nofun⟩
      show Change r _ ⟨_, opened (.completeDeviceLogin loginId options completedAt)
        (.ok (.login answer)) ++ r.completions, _⟩
      rw [hopened]
      exact .opened key login options.token id account completedAt hlogin hpending hfree
  | denyDeviceLogin loginId =>
    rcases r.broker.denyDeviceLogin_cases now loginId with
      ⟨error, hdeny⟩ | ⟨key, login, error, hexpires, hlogin, hpending, hdeny⟩ |
        ⟨key, login, answer, hlogin, hpending, hdeny⟩
    · simp only [step, perform, hdeny]
      exact ⟨.same _, fun _ _ => .inl ⟨_, rfl⟩⟩
    · simp only [step, perform, hdeny]
      exact ⟨.settled key login .expired hlogin hpending (by simp), fun _ _ => .inr hexpires⟩
    · simp only [step, perform, hdeny]
      exact ⟨.settled key login .denied hlogin hpending (by simp), nofun⟩
  | cancelDeviceLogin loginId =>
    cases hrequire : r.broker.requireLogin loginId with
    | error =>
      simp only [step, perform, cancelDeviceLogin, hrequire]
      exact ⟨.same _, fun _ _ => .inl ⟨_, rfl⟩⟩
    | ok found =>
      obtain ⟨key, login⟩ := found
      have hlogin := (requireLogin_eq_ok_iff.1 hrequire).2
      -- an authorized login has its session, and the others need none
      cases hstatus : login.status with
      | pending =>
        simp only [step, perform, cancelDeviceLogin, hrequire, hstatus]
        exact ⟨.settled key login .cancelled hlogin hstatus (by simp), nofun⟩
      | authorized =>
        obtain ⟨session, -, hfound, hcancel⟩ := h.cancel_of_authorized now hrequire hstatus
        have hcloses : r.broker.Closes (.cancelDeviceLogin loginId) session :=
          ⟨key, login, hrequire, hstatus, hfound⟩
        obtain ⟨id, hid⟩ := requireSession_eq_ok hfound
        rw [(h.step_of_closes (e := ⟨now, .cancelDeviceLogin loginId⟩) hcloses).1]
        refine ⟨.closed now id session hid hcloses, ?_⟩
        simp only [perform, hcancel]
        exact nofun
      | loggedOut =>
        simp only [step, perform, cancelDeviceLogin, hrequire, hstatus]
        refine ⟨?_, nofun⟩
        show Change r _ ⟨_, _, closed (.cancelDeviceLogin loginId) (.ok (.login login)) ++ r.ended⟩
        simp only [closed, hstatus, if_true]
        cases hid : login.sessionId with
        | none => exact .same _
        | some id => exact .again id (h.loggedOut key login id hlogin hid hstatus)
      | denied | expired | cancelled =>
        simp only [step, perform, cancelDeviceLogin, hrequire, hstatus]
        refine ⟨?_, nofun⟩
        show Change r _ ⟨_, _, closed (.cancelDeviceLogin loginId) (.ok (.login login)) ++ r.ended⟩
        simp only [closed, hstatus]
        exact .same _
  | logout key =>
    cases hrequire : r.broker.requireSession key with
    | error =>
      simp only [step, perform, logout, hrequire]
      exact ⟨.same _, fun _ _ => .inl ⟨_, rfl⟩⟩
    | ok session =>
      obtain ⟨id, hid⟩ := requireSession_eq_ok hrequire
      rw [(h.step_of_closes (e := ⟨now, .logout key⟩) hrequire).1]
      refine ⟨.closed now id session hid hrequire, ?_⟩
      simp only [perform, logout, hrequire]
      exact nofun
  | getBearerToken => exact ⟨.same _, fun _ _ => .inl ⟨_, rfl⟩⟩

/-! ### The invariant along a run -/

theorem latest_cons (c : Completion) (b : AuthBroker) (completions : List Completion)
    (ended : List TrimmedText) (ref : TrimmedText) :
    (⟨b, c :: completions, ended⟩ : AuthRun).latest ref =
      if c.secretRef = ref then some c
      else (⟨b, completions, ended⟩ : AuthRun).latest ref := by
  by_cases h : c.secretRef = ref <;> simp [latest, h]

theorem mem_of_latest (h : r.latest ref = some c) : c ∈ r.completions ∧ c.secretRef = ref :=
  ⟨mem_of_find?_eq_some h, by simpa using List.find?_some h⟩

section

variable (h : r.Sound)
include h

/-- A login without a session that is not authorized may be stored. -/
theorem Sound.of_login (n : ℕ) (hsession : login.sessionId = none)
    (hstatus : login.status ≠ .authorized) :
    Sound ⟨{ r.broker with loginSequence := n, logins := r.broker.logins.set key login },
      r.completions, r.ended⟩ where
  refs := h.refs
  sessions := h.sessions
  recorded := h.recorded
  secrets := h.secrets
  ended := h.ended
  logins := by
    intro key' login' id hget hid
    rcases get_set_cases hget with ⟨-, rfl⟩ | ⟨-, hget⟩
    · exact absurd (hsession.symm.trans hid) nofun
    · exact h.logins key' login' id hget hid
  loggedOut := by
    intro key' login' id hget hid hout
    rcases get_set_cases hget with ⟨-, rfl⟩ | ⟨-, hget⟩
    · exact absurd (hsession.symm.trans hid) nofun
    · exact h.loggedOut key' login' id hget hid hout
  authorized := by
    intro key' login' hget hauthorized
    rcases get_set_cases hget with ⟨-, rfl⟩ | ⟨-, hget⟩
    · exact absurd hauthorized hstatus
    · exact h.authorized key' login' hget hauthorized

/-- A pending login has no session. -/
theorem Sound.sessionId_of_pending (hlogin : r.broker.logins.get key = some login)
    (hpending : login.status = .pending) : login.sessionId = none := by
  cases hid : login.sessionId with
  | none => rfl
  | some id =>
    obtain ⟨hstatus | hstatus, -⟩ := h.logins key login id hlogin hid
    all_goals
      rw [hpending] at hstatus
      cases hstatus

theorem Sound.of_opened {account : Account} {completedAt : ℕ}
    (hfree : r.broker.sessions.get id = none) :
    Sound ⟨r.broker.openSession key login token id account completedAt,
      ⟨id, login.secretRef, token⟩ :: r.completions, r.ended⟩ := by
  -- no session that was opened before has the new id
  have hnew : ∀ c ∈ r.completions, c.sessionId ≠ id := by
    rintro c hc rfl
    obtain ⟨session, hsession, -⟩ := h.sessions c hc
    rw [hfree] at hsession
    cases hsession
  have hend : id ∉ r.ended := by
    intro hid
    obtain ⟨c, hc, hcid⟩ := h.ended id hid
    exact hnew c hc hcid
  constructor
  case refs =>
    intro ref
    simp only [latest_cons, openSession, get_set]
    by_cases href : login.secretRef = ref
    · rw [if_pos href, if_pos href.symm]
      rfl
    · rw [if_neg href, if_neg (Ne.symm href)]
      exact h.refs ref
  case sessions =>
    intro c hc
    simp only [openSession]
    rcases mem_cons.1 hc with rfl | hc
    · refine ⟨_, get_set_self _ _ _, rfl, ?_⟩
      exact iff_of_false nofun hend
    · rw [get_set_ne _ _ (hnew c hc)]
      exact h.sessions c hc
  case recorded =>
    intro id' session hget
    rcases get_set_cases hget with ⟨hid, rfl⟩ | ⟨-, hget⟩
    · exact ⟨hid.symm, _, mem_cons_self, hid.symm⟩
    · obtain ⟨hown, c, hc, hcid⟩ := h.recorded id' session hget
      exact ⟨hown, c, mem_cons_of_mem _ hc, hcid⟩
  case secrets =>
    intro ref c hlatest hc
    simp only [latest_cons] at hlatest
    simp only [openSession, get_set]
    by_cases href : login.secretRef = ref
    · rw [if_pos href] at hlatest
      obtain rfl := Option.some.inj hlatest
      rw [if_pos href.symm]
    · rw [if_neg href] at hlatest
      rw [if_neg (Ne.symm href)]
      exact h.secrets ref c hlatest hc
  case ended =>
    intro id' hid
    obtain ⟨c, hc, hcid⟩ := h.ended id' hid
    exact ⟨c, mem_cons_of_mem _ hc, hcid⟩
  case logins =>
    intro key' login' id' hget hid
    rcases get_set_cases hget with ⟨-, rfl⟩ | ⟨-, hget⟩
    · exact ⟨.inl rfl, _, mem_cons_self, Option.some.inj hid⟩
    · obtain ⟨hstatus, c, hc, hcid⟩ := h.logins key' login' id' hget hid
      exact ⟨hstatus, c, mem_cons_of_mem _ hc, hcid⟩
  case loggedOut =>
    intro key' login' id' hget hid hout
    rcases get_set_cases hget with ⟨-, rfl⟩ | ⟨-, hget⟩
    · cases hout
    · exact h.loggedOut key' login' id' hget hid hout
  case authorized =>
    intro key' login' hget hauthorized
    rcases get_set_cases hget with ⟨-, rfl⟩ | ⟨-, hget⟩
    · exact nofun
    · exact h.authorized key' login' hget hauthorized

/-- The session that a reference leads to is the one opened last for it. -/
theorem Sound.sessionBySecretRef_of_latest (hlatest : r.latest ref = some c) :
    ∃ session,
      r.broker.sessionBySecretRef ref = some session ∧ session.sessionId = c.sessionId ∧
        (session.status = .loggedOut ↔ c.sessionId ∈ r.ended) := by
  obtain ⟨session, hsession, -, hstatus⟩ := h.sessions c (mem_of_latest hlatest).1
  refine ⟨session, ?_, (h.recorded _ _ hsession).1, hstatus⟩
  rw [sessionBySecretRef, h.refs, hlatest]
  exact hsession

theorem Sound.of_closed (now : ℕ) (hsession : r.broker.sessions.get id = some session)
    (hspares : r.broker.Spares session) :
    Sound ⟨r.broker.closeSession now session, r.completions, session.sessionId :: r.ended⟩ := by
  obtain ⟨hown, closing, hclosing, hid⟩ := h.recorded id session hsession
  constructor
  case refs => exact h.refs
  case sessions =>
    intro c hc
    obtain ⟨found, hfound, href, hstatus⟩ := h.sessions c hc
    simp only [closeSession, get_set]
    by_cases hsame : c.sessionId = session.sessionId
    · rw [if_pos hsame]
      refine ⟨_, rfl, ?_, iff_of_true rfl (mem_cons.2 (.inl hsame))⟩
      -- the two completions have one session
      rw [hsame, hown, hsession] at hfound
      obtain rfl := Option.some.inj hfound
      exact href
    · rw [if_neg hsame]
      refine ⟨found, hfound, href, hstatus.trans ?_⟩
      rw [mem_cons, or_iff_right hsame]
  case recorded =>
    intro id' session' hget
    rcases get_set_cases hget with ⟨hid', rfl⟩ | ⟨-, hget⟩
    · exact ⟨hid'.symm, closing, hclosing, by rw [hid, hid', hown]⟩
    · exact h.recorded id' session' hget
  case secrets =>
    intro ref c hlatest hc
    obtain ⟨hne, hopen⟩ := not_or.1 fun hmem => hc (mem_cons.2 hmem)
    simp only [closeSession]
    rw [get_delete_ne]
    · exact h.secrets ref c hlatest hopen
    · -- the reference of the session spares the one that the reader looks at
      rintro rfl
      obtain ⟨other, hother, hid', hstatus⟩ := h.sessionBySecretRef_of_latest hlatest
      rcases hspares other hother with hsame | hout
      · exact hne (hid'.symm.trans hsame)
      · exact hopen (hstatus.1 hout)
  case ended =>
    intro id' hid'
    rcases mem_cons.1 hid' with rfl | hid'
    · exact ⟨closing, hclosing, by rw [hid, hown]⟩
    · exact h.ended id' hid'
  case logins =>
    intro key login id' hget hid'
    simp only [closeSession, get_mapVals, Option.map_eq_some_iff] at hget
    obtain ⟨before, hbefore, rfl⟩ := hget
    split_ifs at hid' ⊢
    · exact ⟨.inr rfl, (h.logins key before id' hbefore hid').2⟩
    · exact h.logins key before id' hbefore hid'
  case loggedOut =>
    intro key login id' hget hid' hout
    simp only [closeSession, get_mapVals, Option.map_eq_some_iff] at hget
    obtain ⟨before, hbefore, rfl⟩ := hget
    split_ifs at hid' hout with hsame
    · exact mem_cons.2 (.inl (Option.some.inj (hid'.symm.trans hsame)))
    · exact mem_cons_of_mem _ (h.loggedOut key before id' hbefore hid' hout)
  case authorized =>
    intro key login hget hauthorized
    simp only [closeSession, get_mapVals, Option.map_eq_some_iff] at hget
    obtain ⟨before, hbefore, rfl⟩ := hget
    split_ifs at hauthorized ⊢
    exact h.authorized key before hbefore hauthorized

theorem Sound.of_again (hended : id ∈ r.ended) :
    Sound ⟨r.broker, r.completions, id :: r.ended⟩ := by
  have hmem : ∀ id', id' ∈ id :: r.ended ↔ id' ∈ r.ended := by
    intro id'
    rw [mem_cons, or_iff_right_of_imp]
    rintro rfl
    exact hended
  constructor
  case refs => exact h.refs
  case sessions => simpa only [hmem] using h.sessions
  case recorded => exact h.recorded
  case secrets =>
    intro ref c hlatest hc
    exact h.secrets ref c hlatest fun hmem' => hc ((hmem _).2 hmem')
  case ended => simpa only [hmem] using h.ended
  case logins => exact h.logins
  case loggedOut => simpa only [hmem] using h.loggedOut
  case authorized => exact h.authorized

/-- A change keeps the invariant, where the sessions that are logged out are spared. -/
theorem Sound.of_change (hok : ∀ session, ok session → r.broker.Spares session)
    (hchange : Change r ok r') : r'.Sound := by
  cases hchange with
  | idle => exact ⟨h.refs, h.sessions, h.recorded, h.secrets, h.ended, h.logins, h.loggedOut,
      h.authorized⟩
  | started n key login hfree hpending hsession =>
    exact h.of_login n hsession (by rw [hpending]; exact nofun)
  | settled key login status hlogin hpending hstatus =>
    have hnone := h.sessionId_of_pending hlogin hpending
    -- none of the three states is that of an authorized login
    have hne : { login with status }.status ≠ .authorized := by
      rintro rfl
      simp at hstatus
    exact h.of_login r.broker.loginSequence hnone hne
  | opened key login token id account completedAt hlogin hpending hfree => exact h.of_opened hfree
  | closed now id session hsession hclosing => exact h.of_closed now hsession (hok session hclosing)
  | again id hended => exact h.of_again hended

theorem Sound.of_careful (he : r.broker.Careful e) : (r.step e).Sound :=
  h.of_change he.1 (h.step_cases e).1

end

theorem Sound.of_start (expiresInMs intervalMs : ℕ) (verificationUri : TrimmedText)
    (secrets : OrdMap TrimmedText SecretRecord) :
    (start (.new expiresInMs intervalMs verificationUri secrets)).Sound where
  refs := fun _ => rfl
  sessions := nofun
  recorded := nofun
  secrets := nofun
  ended := nofun
  logins := nofun
  loggedOut := nofun
  authorized := nofun

/-! ### The law holds of careful calls -/

theorem getBearerToken_eq_ok_iff {ref : Text} :
    b.getBearerToken ref = .ok token ↔ ∃ key session record,
      TrimmedText.ofText? ref = some key ∧ b.sessionBySecretRef key = some session ∧
        b.secrets.get key = some record ∧ session.status = .authorized ∧
          record.type = "bearer".toList ∧ record.value = token := by
  have hnormalize : ∀ key,
      normalizeSecretRef ref = .ok key ↔ TrimmedText.ofText? ref = some key := by
    intro key
    unfold normalizeSecretRef
    split <;> simp_all
  constructor
  · intro h
    obtain ⟨key, hkey, h⟩ := Except.bind_eq_ok_iff.1 h
    split at h
    next session record hsession hrecord =>
      split_ifs at h with hstatus htype
      exact ⟨key, session, record, (hnormalize key).1 hkey, hsession, hrecord,
        not_not.1 hstatus, not_not.1 htype, Except.ok.inj h⟩
    · cases h
  · rintro ⟨key, session, record, hkey, hsession, hrecord, hstatus, htype, rfl⟩
    refine Except.bind_eq_ok_iff.2 ⟨key, (hnormalize key).2 hkey, ?_⟩
    simp only [hsession, hrecord, hstatus, htype, ne_eq, not_true_eq_false, if_false]
    rfl

theorem Sound.givesOwnTokens (h : r.Sound) : r.GivesOwnTokens := by
  intro ref token
  rw [getBearerToken_eq_ok_iff]
  constructor
  · rintro ⟨key, session, record, hkey, hsession, hrecord, hstatus, -, rfl⟩
    have hlatest : ∃ c, r.latest key = some c := by
      cases hlatest : r.latest key with
      | some c => exact ⟨c, rfl⟩
      | none =>
        rw [sessionBySecretRef, h.refs, hlatest] at hsession
        cases hsession
    obtain ⟨c, hc⟩ := hlatest
    obtain ⟨session', hsession', -, hended⟩ := h.sessionBySecretRef_of_latest hc
    obtain rfl := Option.some.inj (hsession.symm.trans hsession')
    have hopen : c.sessionId ∉ r.ended := by
      intro hmem
      rw [hended.2 hmem] at hstatus
      cases hstatus
    obtain rfl := Option.some.inj (hrecord.symm.trans (h.secrets key c hc hopen))
    exact ⟨key, c, hkey, hc, rfl, hopen⟩
  · rintro ⟨key, c, hkey, hc, rfl, hopen⟩
    obtain ⟨session, hsession, -, hended⟩ := h.sessionBySecretRef_of_latest hc
    refine ⟨key, session, _, hkey, hsession, h.secrets key c hc hopen, ?_, rfl, rfl⟩
    cases hstatus : session.status with
    | authorized => rfl
    | loggedOut => exact absurd (hended.1 hstatus) hopen

/-- The token of a reference, in terms of the notes. -/
theorem GivesOwnTokens.of_latest (h : r.GivesOwnTokens) (hlatest : r.latest ref = some c) :
    r.broker.getBearerToken ref.1 = .ok c.token ↔ c.sessionId ∉ r.ended := by
  rw [h]
  constructor
  · rintro ⟨key, c', hkey, hc', -, hopen⟩
    rw [ofText?_trimmed] at hkey
    obtain rfl := Option.some.inj hkey
    obtain rfl := Option.some.inj (hlatest.symm.trans hc')
    exact hopen
  · exact fun hopen => ⟨ref, c, ofText?_trimmed ref, hlatest, rfl, hopen⟩

/-- Only completions open sessions. -/
theorem opened_eq_nil {call : AuthCall} (answer : Except AuthError AuthAnswer)
    (h : ∀ loginId options completedAt, call ≠ .completeDeviceLogin loginId options completedAt) :
    opened call answer = [] := by
  cases call with
  | completeDeviceLogin => exact absurd rfl (h _ _ _)
  | startDeviceLogin | pollDeviceLogin | denyDeviceLogin | cancelDeviceLogin | logout
  | getBearerToken => rfl

theorem Sound.others (h : r.Sound) (hnext : (r.step e).Sound)
    (hlatest : r.latest ref = some c)
    (hclosed : c.sessionId ∉ closed e.call (r.broker.perform e).2)
    (hcall : ∀ loginId options completedAt,
      e.call ≠ .completeDeviceLogin loginId options completedAt)
    (htoken : r.broker.getBearerToken ref.1 = .ok c.token) :
    (r.step e).broker.getBearerToken ref.1 = .ok c.token := by
  have hopen := (h.givesOwnTokens.of_latest hlatest).1 htoken
  have hlatest' : (r.step e).latest ref = some c := by
    show (opened e.call (r.broker.perform e).2 ++ r.completions).find? _ = some c
    rw [opened_eq_nil _ hcall]
    exact hlatest
  rw [hnext.givesOwnTokens.of_latest hlatest']
  show c.sessionId ∉ closed e.call (r.broker.perform e).2 ++ r.ended
  rw [mem_append]
  exact not_or.2 ⟨hclosed, hopen⟩

/-- A change moves the logins along. -/
theorem Sound.moves (h : r.Sound) (hchange : Change r ok r')
    (hlogin : r.broker.logins.get key = some login) :
    ∃ next, r'.broker.logins.get key = some next ∧ login.status.MovesTo next.status := by
  have hset : ∀ {key' : TrimmedText} {login' next : DeviceLogin},
      r.broker.logins.get key' = some login' → login'.status = .pending →
      next.status ∈ [.authorized, .denied, .expired, .cancelled] →
        ∃ found, (r.broker.logins.set key' next).get key = some found ∧
          login.status.MovesTo found.status := by
    intro key' login' next hlogin' hpending hnext
    rw [get_set]
    split_ifs with hkey
    · subst hkey
      obtain rfl := Option.some.inj (hlogin.symm.trans hlogin')
      exact ⟨next, rfl, .inr (.inl ⟨hpending, hnext⟩)⟩
    · exact ⟨login, hlogin, .inl rfl⟩
  cases hchange with
  | idle => exact ⟨login, hlogin, .inl rfl⟩
  | started n key' login' hfree hpending hsession =>
    refine ⟨login, ?_, .inl rfl⟩
    have hne : key ≠ key' := by
      rintro rfl
      rw [hfree] at hlogin
      cases hlogin
    simp only [get_set_ne _ _ hne, hlogin]
  | settled key' login' status hlogin' hpending hstatus =>
    exact hset hlogin' hpending (mem_cons_of_mem _ hstatus)
  | opened key' login' token id account completedAt hlogin' hpending hfree =>
    exact hset hlogin' hpending mem_cons_self
  | closed =>
    simp only [closeSession, get_mapVals, hlogin, Option.map_some]
    refine ⟨_, rfl, ?_⟩
    split_ifs with hid
    · rcases (h.logins key login _ hlogin hid).1 with hstatus | hstatus
      · exact .inr (.inr ⟨hstatus, rfl⟩)
      · exact .inl hstatus.symm
    · exact .inl rfl
  | again => exact ⟨login, hlogin, .inl rfl⟩

/-- A login that is new after a change is pending. -/
theorem Change.starts (hchange : Change r ok r') (hfree : r.broker.logins.get key = none)
    (hlogin : r'.broker.logins.get key = some login) : login.status = .pending := by
  have hset : ∀ {key' : TrimmedText} {login' next : DeviceLogin},
      r.broker.logins.get key' = some login' →
        (r.broker.logins.set key' next).get key ≠ some login := by
    intro key' login' next hlogin' hget
    rw [get_set] at hget
    split_ifs at hget with hkey
    · subst hkey
      rw [hfree] at hlogin'
      cases hlogin'
    · rw [hfree] at hget
      cases hget
  cases hchange with
  | idle => exact absurd (hfree.symm.trans hlogin) nofun
  | started n key' login' hfree' hpending hsession =>
    rcases get_set_cases hlogin with ⟨-, rfl⟩ | ⟨-, hlogin⟩
    · exact hpending
    · exact absurd (hfree.symm.trans hlogin) nofun
  | settled key' login' status hlogin' hpending hstatus => exact absurd hlogin (hset hlogin')
  | opened key' login' token id account completedAt hlogin' hpending hfree' =>
    exact absurd hlogin (hset hlogin')
  | closed =>
    simp only [closeSession, get_mapVals, hfree, Option.map_none] at hlogin
    cases hlogin
  | again => exact absurd (hfree.symm.trans hlogin) nofun

theorem map_eq_error_iff {α : Type} {f : α → AuthAnswer} {x : Except AuthError α} :
    x.map f = .error error ↔ x = .error error := by
  cases x with
  | error | ok => simp [Except.map]

theorem Sound.owns_of_careful (h : r.Sound) (he : r.broker.Careful e) : r.Owns e := by
  have hnext := h.of_careful he
  obtain ⟨now, call⟩ := e
  obtain ⟨-, hcall⟩ := he
  constructor
  case tokens => exact hnext.givesOwnTokens
  case others => exact fun ref c hlatest hclosed hother => h.others hnext hlatest hclosed hother
  case moves => exact fun key login => h.moves (h.step_cases _).1
  case starts => exact fun key login => (h.step_cases _).1.starts
  case rejected =>
    intro error herror
    rcases (h.step_cases _).2 error herror with ⟨n, hn⟩ | hexpires
    · rw [hn]
      exact ⟨rfl, rfl, rfl⟩
    · cases call with
      | completeDeviceLogin => exact absurd hexpires hcall.1
      | denyDeviceLogin => exact absurd hexpires hcall
      | _ => exact hexpires.elim
  case loginId =>
    rintro options rfl hnone herror
    obtain ⟨id, hid, hhas⟩ :=
      (r.broker.startDeviceLogin_eq_loginExists_iff now options).1 (map_eq_error_iff.1 herror)
    rw [hnone] at hid
    rw [hcall hnone id hid] at hhas
    cases hhas
  case sessionId =>
    rintro loginId options completedAt rfl hnone herror
    obtain ⟨hpending, htoken, id, hid, hhas⟩ :=
      (completeDeviceLogin_eq_sessionExists_iff hcall.1 options completedAt).1
        (map_eq_error_iff.1 herror)
    rw [hnone] at hid
    rw [hcall.2 hnone hpending htoken id hid] at hhas
    cases hhas

/-- A session whose reference another session has taken, and still has, is not logged out. -/
theorem Sound.spares_of_tokens (h : r.Sound) (hcloses : r.broker.Closes e.call session)
    (htokens : (r.step e).GivesOwnTokens) : r.broker.Spares session := by
  intro other hother
  by_contra hne
  obtain ⟨hid, hstatus⟩ := not_or.1 hne
  obtain ⟨c, hc⟩ : ∃ c, r.latest session.secretRef = some c := by
    cases hlatest : r.latest session.secretRef with
    | some c => exact ⟨c, rfl⟩
    | none =>
      rw [sessionBySecretRef, h.refs, hlatest] at hother
      cases hother
  obtain ⟨other', hother', hid', hended⟩ := h.sessionBySecretRef_of_latest hc
  obtain rfl := Option.some.inj (hother.symm.trans hother')
  -- the secret of the reference is deleted, though its session is not logged out
  rw [(h.step_of_closes hcloses).1] at htokens
  have hopen : c.sessionId ∉ session.sessionId :: r.ended := by
    rw [mem_cons, not_or]
    exact ⟨fun hsame => hid (hid'.trans hsame), fun hmem => hstatus (hended.2 hmem)⟩
  have htoken := (htokens.of_latest (show _ = some c from hc)).2 hopen
  obtain ⟨key, -, record, hkey, -, hrecord, -⟩ := getBearerToken_eq_ok_iff.1 htoken
  rw [ofText?_trimmed] at hkey
  obtain rfl := Option.some.inj hkey
  simp only [closeSession, get_delete_self] at hrecord
  cases hrecord

/-- A login that expires in a call is not as it was, though the call fails. -/
theorem Owns.not_expires (he : r.Owns e) : ¬r.broker.Expires e := by
  intro hexpires
  obtain ⟨loginId, ⟨key, login, hrequire, hstale⟩, hperform⟩ : ∃ loginId,
      r.broker.ExpiresAt e.now loginId ∧ ∀ b' error,
        r.broker.requirePendingLogin e.now loginId = (b', .error error) →
          r.broker.perform e = (b', .error error) := by
    obtain ⟨now, call⟩ := e
    cases call with
    | completeDeviceLogin loginId options completedAt =>
      refine ⟨loginId, hexpires, fun b' error hrequire => ?_⟩
      simp only [perform, completeDeviceLogin, hrequire]
      rfl
    | denyDeviceLogin loginId =>
      refine ⟨loginId, hexpires, fun b' error hrequire => ?_⟩
      simp only [perform, denyDeviceLogin, hrequire]
      rfl
    | _ => exact hexpires.elim
  have hexpire := hperform (r.broker.withStatus key login .expired) (notPending .expired) (by
    simp only [requirePendingLogin, hrequire, updateExpiredLogin, if_pos hstale]
    rfl)
  have hrejected := (he.rejected _ (congrArg Prod.snd hexpire)).1
  have hget := congrArg (fun logins => logins.get key) hrejected
  simp only [step, hexpire, withStatus, get_set_self, (requireLogin_eq_ok_iff.1 hrequire).2] at hget
  have hstatus := congrArg DeviceLogin.status (Option.some.inj hget)
  rw [hstale.1] at hstatus
  cases hstatus

theorem Sound.careful_of_owns (h : r.Sound) (he : r.Owns e) : r.broker.Careful e := by
  refine ⟨fun session hcloses => h.spares_of_tokens hcloses he.tokens, ?_⟩
  have hexpires := he.not_expires
  obtain ⟨now, call⟩ := e
  cases call with
  | startDeviceLogin options =>
    intro hnone id hid
    refine Bool.eq_false_iff.2 fun hhas => ?_
    have hexists := (r.broker.startDeviceLogin_eq_loginExists_iff now options).2
      ⟨id, by rw [hnone]; exact hid, hhas⟩
    exact he.loginId options rfl hnone (map_eq_error_iff.2 hexists)
  | completeDeviceLogin loginId options completedAt =>
    refine ⟨hexpires, fun hnone hpending htoken id hid => ?_⟩
    refine Bool.eq_false_iff.2 fun hhas => ?_
    have hexists := (completeDeviceLogin_eq_sessionExists_iff hexpires options
      completedAt).2 ⟨hpending, htoken, id, by rw [hnone]; exact hid, hhas⟩
    exact he.sessionId loginId options completedAt rfl hnone (map_eq_error_iff.2 hexists)
  | denyDeviceLogin loginId => exact hexpires
  | pollDeviceLogin | cancelDeviceLogin | logout | getBearerToken => trivial

/-- Two sessions of one reference. -/
def sharedReference : List TimedAuthCall :=
  let login (id : String) : LoginOptions :=
    ⟨some id.toList, some "shared".toList, none, none, none, none, none, none, none⟩
  [⟨0, .startDeviceLogin (login "older")⟩, ⟨0, .startDeviceLogin (login "newer")⟩,
    ⟨0, .completeDeviceLogin "older".toList ⟨"first".toList, some "one".toList, []⟩ 0⟩,
    ⟨0, .completeDeviceLogin "newer".toList ⟨"second".toList, some "two".toList, []⟩ 0⟩]

end AuthRun

end WasmHost

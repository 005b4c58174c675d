import WasmHost.Lib.Run
import WasmHost.Web.AppServer

/-!
# The lives of turns and logins

Runs of the app server, with the frames that it has sent.

* `ServerRun.Clean`: what a message must come to: one answer to a request, nothing changed by an
  error, one start and at most one end of a turn, and at most one end of a login.
* `ServerRun.Sound`: the invariant, which ties what was sent to the turns that are there.
* `ServerRun.turnsClean_iff_careful`: the messages of a run come to that exactly when they are
  careful.
-/

namespace WasmHost

open OrdMap List Tool AppServer ServerNotification

/-! ### Ids -/

theorem digits_injective : Function.Injective digits := by
  have hread : ∀ n, (digits n).map (fun unit => Char.ofNat unit.toNat) = Nat.toDigits 10 n := by
    intro n
    rw [digits, map_map]
    conv_rhs => rw [← map_id (Nat.toDigits 10 n)]
    refine map_congr_left fun c hc => ?_
    -- a digit is one unit
    have hdigit := Nat.isDigit_of_mem_toDigits (by decide) (by decide) hc
    have hsmall : c.toNat < 65536 := by
      have hnine : c.toNat ≤ 57 := (Char.isDigit_iff_toNat.1 hdigit).2
      omega
    simp [UInt16.toNat_ofNat_of_lt' hsmall]
  intro n m h
  have hdigits : Nat.toDigits 10 n = Nat.toDigits 10 m := by rw [← hread, h, hread]
  calc
    n = Nat.ofDigitChars 10 (Nat.toDigits 10 n) 0 := Nat.ofDigitChars_ten_toDigits.symm
    _ = Nat.ofDigitChars 10 (Nat.toDigits 10 m) 0 := by rw [hdigits]
    _ = m := Nat.ofDigitChars_ten_toDigits

theorem turnIdOf_injective : Function.Injective turnIdOf := by
  intro n m h
  exact digits_injective (append_cancel_left h)

/-! ### What was sent -/

/-- What a frame says of a turn. -/
inductive TurnNews
  | started | completed
  deriving DecidableEq

/-- What a notification says of the turn with an id. -/
def ServerNotification.turnNews (id : JsText) : ServerNotification → Option TurnNews
  | .turnStarted _ turn => if turn.id = id then some .started else none
  | .turnCompleted _ turn => if turn.id = id then some .completed else none
  | _ => none

/-- The notification says that the login with an id is completed. -/
def ServerNotification.endsLogin (id : JsText) : ServerNotification → Bool
  | .loginCompleted loginId => loginId = id
  | _ => false

/-- What a frame tells of a turn. -/
def ServerFrame.turnNews (id : JsText) : ServerFrame → Option TurnNews
  | notification n => n.turnNews id
  | _ => none

/-- The frame ends a login. -/
def ServerFrame.endsLogin (id : JsText) : ServerFrame → Bool
  | notification n => n.endsLogin id
  | _ => false

/-- The id that a frame answers. -/
def ServerFrame.responseId : ServerFrame → Option JsValue
  | .result id _ | .error id _ => some id
  | _ => none

/-- What is said of a turn in its life. -/
def lifeOf : Option ServerTurn → List TurnNews
  | none => []
  | some turn => if turn.status = .inProgress then [.started] else [.started, .completed]

/-- The id of a request. -/
def RawMessage.requestId (message : RawMessage) : Option JsValue :=
  match parseJsonRpcMessage message with
  | .error _ => none
  | .ok fields =>
    match fieldOf fields "id" with
    | .undefined => none
    | id => some id

/-- The id, the method and the parameters of a request whose envelope is valid. -/
def RawMessage.request? (message : RawMessage) : Option (JsValue × JsText × JsValue) :=
  match parseJsonRpcMessage message with
  | .error _ => none
  | .ok fields =>
    match fieldOf fields "id", validateJsonRpcEnvelope fields with
    | .undefined, _ => none
    | _, .error _ => none
    | id, .ok method => some (id, method, fieldOf fields "params")

/-- A server with the frames that it has sent. -/
structure ServerRun where
  server : AppServer
  sent : List ServerFrame

namespace ServerRun

def start (server : AppServer) : ServerRun := ⟨server, []⟩

variable (r : ServerRun)

/-- The run behind a call. -/
def step (call : ServerCall) : ServerRun :=
  ⟨(r.server.handleMessage call).1, r.sent ++ (r.server.handleMessage call).2⟩

def turnStory (id : JsText) : List TurnNews := r.sent.filterMap (·.turnNews id)

def loginEnds (id : JsText) : ℕ := r.sent.countP (·.endsLogin id)

/-- What a message must come to. -/
structure Clean (call : ServerCall) : Prop where
  answered : ∀ id, call.message.requestId = some id →
    (r.server.handleMessage call).2.filterMap ServerFrame.responseId = [id]
  unchanged : ∀ id error, .error id error ∈ (r.server.handleMessage call).2 →
    (r.step call).server.threads = r.server.threads ∧
      (r.step call).server.turns = r.server.turns ∧
        (r.step call).server.logins = r.server.logins
  turns : ∀ id, (r.step call).turnStory id = lifeOf ((r.step call).server.turns.get id)
  logins : ∀ id, (r.step call).loginEnds id ≤ 1

end ServerRun

namespace AppServer

variable (s : AppServer)

/-- The client has not opted out of the notifications of a method. -/
def Announces (method : String) : Prop := js method ∉ s.notificationOptOut

/-- The list of methods decides it. -/
instance (method : String) : Decidable (s.Announces method) :=
  inferInstanceAs (Decidable (js method ∉ s.notificationOptOut))

/-- The model answers, and the notifications of a turn that is completed at once are allowed. -/
def CanComplete (call : ServerCall) (threadId : JsText) (input : List JsValue) : Prop :=
  autoCompleteTurnNotificationCount ≤ s.maxNotificationsPerTurn ∧
    ∃ text, call.modelResponseText
      ⟨inputText input, s.threads.get threadId, (s.addTurn call.now threadId).2⟩ = .ok text

end AppServer

/-- A turn is not started where it cannot be completed at once but has to be, a login is not
canceled whose end was announced, and the client has not opted out of what is said of turns. -/
def ServerRun.Careful (r : ServerRun) (call : ServerCall) : Prop :=
  match call.message.request? with
  | none => True
  | some (_, method, params) =>
    match ServerMethod.ofText? method with
    | some .turnStart => ∀ threadId input, r.server.turnStartParams params = .ok (threadId, input) →
        r.server.Announces "turn/started" ∧ (r.server.autoCompleteTurns = true →
          r.server.CanComplete call threadId input ∧ r.server.Announces "turn/completed")
    | some .turnInterrupt => ∀ turnId turn,
        r.server.interruptedTurn params = .ok (turnId, turn) → r.server.Announces "turn/completed"
    | some .loginCancel => ∀ loginId, AppServer.cancelledLoginId params = .ok loginId →
        r.server.logins.has loginId = true →
          r.server.Announces "account/login/completed" → r.loginEnds loginId = 0
    | _ => True

/-! ### What messages do -/

namespace AppServer

variable {s next : AppServer} {turnId : JsText} {turn : ServerTurn}

/-- A request that is about no turn and no login that is there. -/
def Idle (s : AppServer) (method : JsText) (params : JsValue) : Prop :=
  match ServerMethod.ofText? method with
  | some .turnStart => ∀ found, s.turnStartParams params ≠ .ok found
  | some .turnInterrupt => ∀ found, s.interruptedTurn params ≠ .ok found
  | some .loginCancel => ∀ loginId, cancelledLoginId params = .ok loginId →
      s.logins.has loginId = false
  | _ => True

/-- What a request does. -/
inductive Effect (s : AppServer) (call : ServerCall) (method : JsText) (params : JsValue) :
    AppServer × Except AppServerError ServerReply → Prop
  | failed (error : AppServerError) (hidle : s.Idle method params) :
      Effect s call method params (s, .error error)
  | quiet (next : AppServer) (reply : ServerReply) (hidle : s.Idle method params)
      (hturns : next.turns = s.turns)
      (hsequence : next.turnSequence = s.turnSequence)
      (hnews : ∀ n ∈ reply.notifications, ∀ id, n.turnNews id = none ∧ n.endsLogin id = false) :
      Effect s call method params (next, .ok reply)
  | canceled (loginId : JsText) (login : ServerLogin)
      (hmethod : ServerMethod.ofText? method = some .loginCancel)
      (hparams : cancelledLoginId params = .ok loginId)
      (hlogin : s.logins.get loginId = some login) :
      Effect s call method params
        ({ s with logins := s.logins.set loginId { login with status := .canceled } },
          .ok ⟨[.loginCompleted loginId], .cancelled true⟩)
  | started (threadId : JsText) (input : List JsValue)
      (hmethod : ServerMethod.ofText? method = some .turnStart)
      (hparams : s.turnStartParams params = .ok (threadId, input))
      (hauto : s.autoCompleteTurns = false) (turn : ServerTurn)
      (hturn : turn = (s.addTurn call.now threadId).2) :
      Effect s call method params ((s.addTurn call.now threadId).1,
        .ok ⟨[.turnStarted threadId (publicTurn turn)], .turn (publicTurn turn)⟩)
  | broken (threadId : JsText) (input : List JsValue) (error : AppServerError)
      (hmethod : ServerMethod.ofText? method = some .turnStart)
      (hparams : s.turnStartParams params = .ok (threadId, input))
      (hauto : s.autoCompleteTurns = true) (hcannot : ¬s.CanComplete call threadId input) :
      Effect s call method params ((s.addTurn call.now threadId).1, .error error)
  | completed (threadId : JsText) (input : List JsValue) (next : AppServer) (item : TurnItem)
      (turn completed : ServerTurn)
      (hmethod : ServerMethod.ofText? method = some .turnStart)
      (hparams : s.turnStartParams params = .ok (threadId, input))
      (hauto : s.autoCompleteTurns = true) (hcan : s.CanComplete call threadId input)
      (hturn : turn = (s.addTurn call.now threadId).2)
      (hid : completed.id = turn.id) (hstatus : completed.status = .completed)
      (hnext : next = { (s.addTurn call.now threadId).1 with
        turns := (s.addTurn call.now threadId).1.turns.set turn.id completed }) :
      Effect s call method params (next,
        .ok ⟨[.turnStarted threadId (publicTurn turn),
          .itemCompleted call.later item threadId turn.id,
            .turnCompleted threadId (publicTurn completed)], .turn (publicTurn turn)⟩)
  | interrupted (turnId : JsText) (turn interrupted : ServerTurn)
      (hmethod : ServerMethod.ofText? method = some .turnInterrupt)
      (hparams : s.interruptedTurn params = .ok (turnId, turn)) (hid : interrupted.id = turn.id)
      (hstatus : interrupted.status = .interrupted) :
      Effect s call method params ({ s with turns := s.turns.set turnId interrupted },
        .ok ⟨[.turnCompleted turn.threadId (publicTurn interrupted)], .interrupted⟩)

variable (call : ServerCall) {method : JsText} {params : JsValue}

theorem startTurn_effect (params : JsValue)
    (hmethod : ServerMethod.ofText? method = some .turnStart) :
    Effect s call method params (s.startTurn call params) := by
  unfold startTurn
  cases hparams : s.turnStartParams params with
  | error error =>
    refine .failed error ?_
    simp [Idle, hmethod, hparams]
  | ok found =>
    obtain ⟨threadId, input⟩ := found
    cases hauto : s.autoCompleteTurns with
    | false =>
      simp only [if_true]
      exact .started threadId input hmethod hparams hauto _ rfl
    | true =>
      simp only [reduceCtorEq, if_false]
      have hitem : ∀ item,
          (s.addTurn call.now threadId).1.completionItem call (s.addTurn call.now threadId).2 input
            = .ok item → s.CanComplete call threadId input := by
        intro item h
        obtain ⟨text, htext, h⟩ := Except.bind_eq_ok_iff.1 h
        split_ifs at h with hlimit
        exact ⟨Nat.le_of_not_lt hlimit, text, htext⟩
      cases hcompletion : (s.addTurn call.now threadId).1.completionItem call
          (s.addTurn call.now threadId).2 input with
      | error error =>
        have hcannot : ¬s.CanComplete call threadId input := by
          rintro ⟨hlimit, text, htext⟩
          rcases Except.bind_eq_error_iff.1 hcompletion with h | ⟨text', -, h⟩
          · cases htext.symm.trans h
          · split_ifs at h with hlt
            · exact Nat.not_lt.2 hlimit hlt
            · cases h
        simp only [completedTurnNotifications, hcompletion]
        exact .broken threadId input error hmethod hparams hauto hcannot
      | ok item =>
        simp only [completedTurnNotifications, hcompletion]
        exact .completed threadId input _ item _ _ hmethod hparams hauto (hitem item hcompletion)
          rfl rfl rfl rfl

theorem cancelLogin_effect (params : JsValue)
    (hmethod : ServerMethod.ofText? method = some .loginCancel) :
    Effect s call method params (s.cancelLogin params) := by
  unfold cancelLogin
  cases hparams : cancelledLoginId params with
  | error error =>
    refine .failed error ?_
    simp [Idle, hmethod, hparams]
  | ok loginId =>
    dsimp only
    cases hlogin : s.logins.get loginId with
    | none =>
      refine .quiet s ⟨[], .cancelled false⟩ ?_ rfl rfl nofun
      simp [Idle, hmethod, hparams, has_eq_false_iff, hlogin]
    | some login => exact .canceled loginId login hmethod hparams hlogin

/-- An interrupt is about a turn in progress. -/
theorem interruptedTurn_eq_ok (h : s.interruptedTurn params = .ok (turnId, turn)) :
    s.turns.get turnId = some turn ∧ turn.status = .inProgress := by
  obtain ⟨fields, -, h⟩ := Except.bind_eq_ok_iff.1 h
  obtain ⟨threadId, -, h⟩ := Except.bind_eq_ok_iff.1 h
  obtain ⟨turnId', -, h⟩ := Except.bind_eq_ok_iff.1 h
  split at h
  · cases h
  next found hfound =>
    split_ifs at h with hthread hstatus
    obtain ⟨rfl, rfl⟩ := Prod.mk.inj (Except.ok.inj h)
    exact ⟨hfound, not_not.1 hstatus⟩

theorem interruptTurn_effect (params : JsValue)
    (hmethod : ServerMethod.ofText? method = some .turnInterrupt) :
    Effect s call method params (s.interruptTurn call.now params) := by
  unfold interruptTurn
  cases hparams : s.interruptedTurn params with
  | error error =>
    refine .failed error ?_
    simp [Idle, hmethod, hparams]
  | ok found =>
    obtain ⟨turnId, turn⟩ := found
    exact .interrupted turnId turn _ hmethod hparams rfl rfl

theorem handleRequest_effect (method : JsText) (params : JsValue) :
    Effect s call method params (s.handleRequest call method params) := by
  unfold handleRequest
  split
  next hmethod =>
    have hidle : s.Idle method params := by simp [Idle, hmethod]
    unfold initializeClient
    split
    next error _ => exact .failed error hidle
    · exact .quiet _ ⟨[], _⟩ hidle rfl rfl nofun
  next hmethod =>
    have hidle : s.Idle method params := by simp [Idle, hmethod]
    exact .quiet s ⟨[], _⟩ hidle rfl rfl nofun
  next hmethod =>
    have hidle : s.Idle method params := by simp [Idle, hmethod]
    unfold startLogin
    split
    next error _ => exact .failed error hidle
    split_ifs
    · exact .quiet _ ⟨[], _⟩ hidle rfl rfl nofun
    · exact .failed _ hidle
  next hmethod => exact cancelLogin_effect call params hmethod
  next hmethod =>
    have hidle : s.Idle method params := by simp [Idle, hmethod]
    unfold startThread
    split
    next error _ => exact .failed error hidle
    refine .quiet _ ⟨[.threadStarted _], _⟩ hidle rfl rfl ?_
    simp [turnNews, endsLogin]
  next hmethod => exact startTurn_effect call params hmethod
  next hmethod => exact interruptTurn_effect call params hmethod
  next hmethod => exact .failed _ (by simp [Idle, hmethod])

/-- Turns are stored under their ids, and those of the next numbers are free. -/
structure Numbered (s : AppServer) : Prop where
  ids : ∀ id turn, s.turns.get id = some turn → turn.id = id
  fresh : ∀ n, s.turnSequence < n → s.turns.get (turnIdOf n) = none

theorem Numbered.congr (h : s.Numbered) (hturns : next.turns = s.turns)
    (hsequence : next.turnSequence = s.turnSequence) : next.Numbered := by
  constructor
  case ids => simpa only [hturns] using h.ids
  case fresh => simpa only [hturns, hsequence] using h.fresh

/-- A turn in the place of one that is there. -/
theorem Numbered.replace (h : s.Numbered) {turn' : ServerTurn}
    (hturn : s.turns.get turnId = some turn) (hid : turn'.id = turn.id)
    (hturns : next.turns = s.turns.set turnId turn')
    (hsequence : next.turnSequence = s.turnSequence) : next.Numbered := by
  constructor
  case ids =>
    intro id found hget
    rw [hturns, get_set] at hget
    split_ifs at hget with hsame
    · obtain rfl := Option.some.inj hget
      rw [hid, h.ids _ _ hturn, hsame]
    · exact h.ids id found hget
  case fresh =>
    intro n hn
    rw [hsequence] at hn
    rw [hturns, get_set_ne, h.fresh n hn]
    rintro rfl
    rw [h.fresh n hn] at hturn
    cases hturn

theorem Numbered.addTurn (h : s.Numbered) (now : ℕ) (threadId : JsText) :
    (s.addTurn now threadId).1.Numbered := by
  have hget : ∀ id, (s.addTurn now threadId).1.turns.get id =
      if id = turnIdOf (s.turnSequence + 1) then some (s.addTurn now threadId).2
      else s.turns.get id := fun id => get_set _ _ _ _
  constructor
  case ids =>
    intro id turn hturn
    rw [hget] at hturn
    split_ifs at hturn with hid
    · obtain rfl := Option.some.inj hturn
      exact hid.symm
    · exact h.ids id turn hturn
  case fresh =>
    intro n hn
    have hn : s.turnSequence + 1 < n := hn
    rw [hget, if_neg, h.fresh n (by omega)]
    intro hsame
    have := turnIdOf_injective hsame
    omega

theorem Effect.numbered (h : s.Numbered) {call : ServerCall}
    {x : AppServer × Except AppServerError ServerReply} (heffect : Effect s call method params x) :
    x.1.Numbered := by
  cases heffect with
  | failed => exact h
  | quiet next reply hidle hturns hsequence hnews => exact h.congr hturns hsequence
  | canceled => exact h.congr rfl rfl
  | started | broken => exact h.addTurn _ _
  | completed threadId input next item turn completed hmethod hparams hauto hcan hturn hid hstatus
      hnext =>
    subst hnext hturn
    exact (h.addTurn call.now threadId).replace (get_set_self _ _ _) hid rfl rfl
  | interrupted turnId turn interrupted hmethod hparams hid hstatus =>
    exact h.replace (interruptedTurn_eq_ok hparams).1 hid rfl rfl

/-- A message that is no request whose envelope is valid changes nothing but a flag, and what is
sent is about no turn and no login. -/
theorem handleMessage_of_no_request {call : ServerCall} (h : call.message.request? = none) :
    (∃ b, (s.handleMessage call).1 = { s with initialized := b }) ∧
      (∀ frame ∈ (s.handleMessage call).2, ∀ id,
        frame.turnNews id = none ∧ frame.endsLogin id = false) ∧
      ∀ id, call.message.requestId = some id →
        (s.handleMessage call).2.filterMap ServerFrame.responseId = [id] := by
  unfold RawMessage.request? at h
  unfold handleMessage RawMessage.requestId
  cases hparse : parseJsonRpcMessage call.message with
  | error =>
    exact ⟨⟨s.initialized, rfl⟩, by simp [ServerFrame.turnNews, ServerFrame.endsLogin], nofun⟩
  | ok fields =>
    simp only [hparse] at h ⊢
    cases hvalid : validateJsonRpcEnvelope fields with
    | error error =>
      -- the error is the notification or the answer, by the id
      cases hid : fieldOf fields "id"
      all_goals
        refine ⟨⟨s.initialized, rfl⟩, by simp [ServerFrame.turnNews, ServerFrame.endsLogin], ?_⟩
        simp [ServerFrame.responseId]
    | ok =>
      cases hid : fieldOf fields "id"
      case undefined =>
        simp only [handleNotification]
        split_ifs
        · exact ⟨⟨true, rfl⟩, by simp, nofun⟩
        · exact ⟨⟨s.initialized, rfl⟩, by simp [ServerFrame.turnNews, ServerFrame.endsLogin], nofun⟩
      all_goals simp [hid, hvalid] at h

theorem handleMessage_of_request {call : ServerCall} {id : JsValue}
    (h : call.message.request? = some (id, method, params)) :
    s.handleMessage call = respond id (s.handleRequest call method params) ∧
      ∀ id', call.message.requestId = some id' → id' = id := by
  unfold RawMessage.request? at h
  unfold handleMessage RawMessage.requestId
  cases hparse : parseJsonRpcMessage call.message with
  | error => simp [hparse] at h
  | ok fields =>
    simp only [hparse] at h ⊢
    cases hvalid : validateJsonRpcEnvelope fields with
    | error =>
      cases hid : fieldOf fields "id"
      all_goals simp [hid, hvalid] at h
    | ok =>
      cases hid : fieldOf fields "id"
      case undefined => simp [hid] at h
      all_goals
        simp only [hid, hvalid, Option.some.injEq, Prod.mk.injEq] at h
        obtain ⟨rfl, rfl, rfl⟩ := h
        exact ⟨rfl, fun id' h => (Option.some.inj h).symm⟩

end AppServer

namespace ServerRun

variable {r : ServerRun} {notifications : List ServerNotification}

/-- The invariant of a run. -/
structure Sound (r : ServerRun) : Prop where
  turns : ∀ id, r.turnStory id = lifeOf (r.server.turns.get id)
  numbered : r.server.Numbered
  logins : ∀ id, r.loginEnds id ≤ 1

@[simp]
theorem turnStory_step (r : ServerRun) (call : ServerCall) (id : JsText) :
    (r.step call).turnStory id =
      r.turnStory id ++ (r.server.handleMessage call).2.filterMap (·.turnNews id) := by
  simp [turnStory, step]

@[simp]
theorem loginEnds_step (r : ServerRun) (call : ServerCall) (id : JsText) :
    (r.step call).loginEnds id =
      r.loginEnds id + (r.server.handleMessage call).2.countP (·.endsLogin id) := by
  simp [loginEnds, step]

variable (id : JsValue) (next : AppServer) {call : ServerCall}

/-- What the answer to a request says of a turn. -/
theorem turnNews_respond (next : AppServer) (reply : ServerReply) (turnId : JsText) :
    (respond id (next, .ok reply)).2.filterMap (·.turnNews turnId) =
      (next.filterNotifications reply.notifications).filterMap (·.turnNews turnId) := by
  simp only [respond, filterMap_cons, ServerFrame.turnNews, filterMap_map]
  rfl

theorem endsLogin_respond (next : AppServer) (reply : ServerReply) (loginId : JsText) :
    (respond id (next, .ok reply)).2.countP (·.endsLogin loginId) =
      (next.filterNotifications reply.notifications).countP (·.endsLogin loginId) := by
  simp only [respond, countP_cons, ServerFrame.endsLogin, countP_map]
  rfl

/-- A request has one answer. -/
theorem responseId_respond (x : AppServer × Except AppServerError ServerReply) :
    (respond id x).2.filterMap ServerFrame.responseId = [id] := by
  obtain ⟨next, error | reply⟩ := x
  · rfl
  · simp only [respond, filterMap_cons, ServerFrame.responseId, filterMap_map]
    rw [filterMap_eq_nil_iff.2]
    rintro n -
    rfl

/-- Every request has one answer, whatever the state. -/
theorem answered (r : ServerRun) (call : ServerCall) {id : JsValue}
    (hid : call.message.requestId = some id) :
    (r.server.handleMessage call).2.filterMap ServerFrame.responseId = [id] := by
  cases hrequest : call.message.request? with
  | none => exact (handleMessage_of_no_request hrequest).2.2 id hid
  | some request =>
    obtain ⟨id', method, params⟩ := request
    obtain ⟨hmessage, hsame⟩ := handleMessage_of_request (s := r.server) hrequest
    rw [hmessage, hsame id hid, responseId_respond]

/-! ### Turns -/

/-- What is said of a turn, after the client's choice. -/
theorem news_cons {n : ServerNotification} {method : String} {turnId : JsText} {news : TurnNews}
    (hmethod : n.method = js method)
    (hnews : ∀ id, n.turnNews id = if turnId = id then some news else none)
    (rest : List ServerNotification) (id : JsText) :
    (next.filterNotifications (n :: rest)).filterMap (·.turnNews id) =
      (if next.Announces method ∧ turnId = id then [news] else []) ++
        (next.filterNotifications rest).filterMap (·.turnNews id) := by
  have hann : next.Announces method ↔ n.method ∉ next.notificationOptOut := by
    rw [hmethod]
    rfl
  by_cases hopt : n.method ∈ next.notificationOptOut
  · rw [if_neg fun h => hann.1 h.1 hopt, filterNotifications, filter_cons_of_neg]
    · rfl
    · simpa using hopt
  · rw [filterNotifications, filter_cons_of_pos (by simpa using hopt),
      filterMap_cons, hnews]
    by_cases hid : turnId = id
    · simp only [if_pos hid, if_pos (And.intro (hann.2 hopt) hid)]
      rfl
    · simp only [if_neg hid, if_neg fun h : _ ∧ _ => hid h.2]
      rfl

theorem news_turnStarted (threadId : JsText) (turn : PublicTurn) (rest : List ServerNotification)
    (id : JsText) :
    (next.filterNotifications (.turnStarted threadId turn :: rest)).filterMap (·.turnNews id) =
      (if next.Announces "turn/started" ∧ turn.id = id then [.started] else []) ++
        (next.filterNotifications rest).filterMap (·.turnNews id) :=
  news_cons next rfl (fun _ => rfl) rest id

theorem news_turnCompleted (threadId : JsText) (turn : PublicTurn) (id : JsText) :
    (next.filterNotifications [.turnCompleted threadId turn]).filterMap (·.turnNews id) =
      if next.Announces "turn/completed" ∧ turn.id = id then [.completed] else [] := by
  have hnews := news_cons next (n := .turnCompleted threadId turn) rfl (fun _ => rfl) [] id
  exact hnews.trans (append_nil _)

theorem news_itemCompleted (at' : ℕ) (item : TurnItem) (threadId turnId : JsText)
    (rest : List ServerNotification) (id : JsText) :
    (next.filterNotifications (.itemCompleted at' item threadId turnId :: rest)).filterMap
      (·.turnNews id) = (next.filterNotifications rest).filterMap (·.turnNews id) := by
  unfold filterNotifications
  rw [filter_cons]
  split_ifs
  · rw [filterMap_cons]
    rfl
  · rfl

section

variable (h : r.Sound) {turn : ServerTurn}

include h

theorem Sound.turns_get_new : r.server.turns.get (turnIdOf (r.server.turnSequence + 1)) = none :=
  h.numbered.fresh _ (Nat.lt_succ_self _)

/-- Nothing was said of a turn that is about to be started. -/
theorem Sound.turnStory_new : r.turnStory (turnIdOf (r.server.turnSequence + 1)) = [] := by
  rw [h.turns, h.turns_get_new]
  rfl

theorem Sound.started_iff (now : ℕ) (threadId : JsText) :
    (∀ id, r.turnStory id ++ ((r.server.addTurn now threadId).1.filterNotifications
        [.turnStarted threadId (publicTurn (r.server.addTurn now threadId).2)]).filterMap
          (·.turnNews id) =
      lifeOf ((r.server.addTurn now threadId).1.turns.get id)) ↔
        r.server.Announces "turn/started" := by
  have hnews := news_turnStarted (r.server.addTurn now threadId).1 threadId
    (publicTurn (r.server.addTurn now threadId).2) []
  have hget : ∀ id, (r.server.addTurn now threadId).1.turns.get id =
      if id = turnIdOf (r.server.turnSequence + 1) then some (r.server.addTurn now threadId).2
      else r.server.turns.get id := fun id => get_set _ _ _ _
  constructor
  · intro hall
    by_contra hopt
    have hnew := hall (turnIdOf (r.server.turnSequence + 1))
    rw [h.turnStory_new, hget, if_pos rfl, hnews, if_neg fun hann => hopt hann.1] at hnew
    cases hnew
  · intro hann id
    rw [hget, hnews]
    by_cases hid : id = turnIdOf (r.server.turnSequence + 1)
    · subst hid
      rw [h.turnStory_new, if_pos rfl, if_pos ⟨hann, rfl⟩]
      rfl
    · rw [if_neg hid, if_neg fun hsame => hid hsame.2.symm, h.turns]
      exact append_nil _

theorem Sound.completed_iff (call : ServerCall) (threadId : JsText) {item : TurnItem}
    {completed : ServerTurn} (hturn : turn = (r.server.addTurn call.now threadId).2)
    (hid : completed.id = turn.id) (hstatus : completed.status = .completed) {next : AppServer}
    (hnext : next = { (r.server.addTurn call.now threadId).1 with
      turns := (r.server.addTurn call.now threadId).1.turns.set turn.id completed }) :
    (∀ id, r.turnStory id ++ (next.filterNotifications
        [.turnStarted threadId (publicTurn turn), .itemCompleted call.later item threadId turn.id,
          .turnCompleted threadId (publicTurn completed)]).filterMap (·.turnNews id) =
      lifeOf (next.turns.get id)) ↔
        r.server.Announces "turn/started" ∧ r.server.Announces "turn/completed" := by
  have hnew : turn.id = turnIdOf (r.server.turnSequence + 1) := by
    rw [hturn]
    rfl
  have hnews : ∀ id, (next.filterNotifications
      [.turnStarted threadId (publicTurn turn), .itemCompleted call.later item threadId turn.id,
        .turnCompleted threadId (publicTurn completed)]).filterMap (·.turnNews id) =
      (if r.server.Announces "turn/started" ∧ turn.id = id then [.started] else []) ++
        if r.server.Announces "turn/completed" ∧ turn.id = id then [.completed] else [] := by
    intro id
    have hann : ∀ method, next.Announces method ↔ r.server.Announces method := by
      intro method
      rw [hnext]
      rfl
    have hpublic : (publicTurn completed).id = turn.id := hid
    rw [news_turnStarted, news_itemCompleted, news_turnCompleted]
    simp only [hann, hpublic]
    rfl
  have hget : ∀ id, next.turns.get id =
      if id = turn.id then some completed else r.server.turns.get id := by
    intro id
    subst hnext
    show ((r.server.turns.set _ _).set turn.id completed).get id = _
    rw [get_set, get_set]
    by_cases hsame : id = turn.id
    · rw [if_pos hsame, if_pos hsame]
    · rw [if_neg hsame, if_neg hsame, if_neg fun h => hsame (h.trans hnew.symm)]
  have hlife : lifeOf (some completed) = [.started, .completed] := by
    simp [lifeOf, hstatus]
  constructor
  · intro hall
    have hone := hall turn.id
    rw [hnews, hget, if_pos rfl, hlife, hnew, h.turnStory_new] at hone
    by_cases hstarted : r.server.Announces "turn/started" <;>
      by_cases hcompleted : r.server.Announces "turn/completed" <;> simp_all
  · rintro ⟨hstarted, hcompleted⟩ id
    rw [hnews, hget]
    by_cases hsame : id = turn.id
    · rw [if_pos hsame, if_pos ⟨hstarted, hsame.symm⟩, if_pos ⟨hcompleted, hsame.symm⟩, hlife,
        hsame, hnew, h.turnStory_new]
      rfl
    · rw [if_neg hsame, if_neg fun h => hsame h.2.symm, if_neg fun h => hsame h.2.symm, h.turns]
      exact append_nil _

theorem Sound.interrupted_iff {params : JsValue} {turnId : JsText} {interrupted : ServerTurn}
    (hparams : r.server.interruptedTurn params = .ok (turnId, turn))
    (hid : interrupted.id = turn.id) (hstatus : interrupted.status = .interrupted)
    {next : AppServer}
    (hnext : next = { r.server with turns := r.server.turns.set turnId interrupted }) :
    (∀ id, r.turnStory id ++ (next.filterNotifications
        [.turnCompleted turn.threadId (publicTurn interrupted)]).filterMap (·.turnNews id) =
      lifeOf (next.turns.get id)) ↔ r.server.Announces "turn/completed" := by
  obtain ⟨hturn, hrunning⟩ := interruptedTurn_eq_ok hparams
  have hsame : turn.id = turnId := h.numbered.ids _ _ hturn
  have hnews : ∀ id, (next.filterNotifications
      [.turnCompleted turn.threadId (publicTurn interrupted)]).filterMap (·.turnNews id) =
        if r.server.Announces "turn/completed" ∧ turnId = id then [.completed] else [] := by
    intro id
    have hann : next.Announces "turn/completed" ↔ r.server.Announces "turn/completed" := by
      rw [hnext]
      rfl
    have hpublic : (publicTurn interrupted).id = turnId := hid.trans hsame
    rw [news_turnCompleted]
    simp only [hann, hpublic]
  have hget : ∀ id, next.turns.get id =
      if id = turnId then some interrupted else r.server.turns.get id := by
    intro id
    rw [hnext]
    exact get_set _ _ _ _
  have hlife : lifeOf (some interrupted) = [.started, .completed] := by
    simp [lifeOf, hstatus]
  -- only the start of the turn was announced so far
  have hstory : r.turnStory turnId = [.started] := by
    rw [h.turns, hturn]
    simp [lifeOf, hrunning]
  constructor
  · intro hall
    by_contra hopt
    have hone := hall turnId
    rw [hnews, hget, if_pos rfl, hlife, hstory, if_neg fun hann => hopt hann.1] at hone
    cases hone
  · intro hann id
    rw [hnews, hget]
    by_cases hsameId : id = turnId
    · rw [if_pos hsameId, if_pos ⟨hann, hsameId.symm⟩, hlife, hsameId, hstory]
      rfl
    · rw [if_neg hsameId, if_neg fun h => hsameId h.2.symm, h.turns]
      exact append_nil _

end

/-! ### Logins -/

theorem ends_loginCompleted (loginId id : JsText) :
    (next.filterNotifications [.loginCompleted loginId]).countP (·.endsLogin id) =
      if next.Announces "account/login/completed" ∧ loginId = id then 1 else 0 := by
  by_cases hopt : js "account/login/completed" ∈ next.notificationOptOut
  · rw [if_neg fun h => h.1 hopt, filterNotifications, filter_cons_of_neg]
    · rfl
    · simp [method, hopt]
  · rw [filterNotifications,
      filter_cons_of_pos (by simp [method, hopt]), filter_nil,
      countP_cons, countP_nil]
    by_cases hid : loginId = id
    · simp [endsLogin, hid, AppServer.Announces, hopt]
    · simp [endsLogin, hid]

/-- The end of a login is announced once, unless it was announced before. -/
theorem Sound.canceled_iff (h : r.Sound) (next : AppServer) (loginId : JsText) :
    (∀ id, r.loginEnds id +
        (next.filterNotifications [.loginCompleted loginId]).countP (·.endsLogin id) ≤ 1) ↔
      (next.Announces "account/login/completed" → r.loginEnds loginId = 0) := by
  constructor
  · intro hall hann
    have hone := hall loginId
    rw [ends_loginCompleted, if_pos ⟨hann, rfl⟩] at hone
    omega
  · intro hzero id
    rw [ends_loginCompleted]
    split_ifs with hends
    · rw [← hends.2, hzero hends.1]
    · exact h.logins id

theorem no_news (h : ∀ n ∈ notifications, ∀ id, n.turnNews id = none) (id : JsText) :
    (next.filterNotifications notifications).filterMap (·.turnNews id) = [] := by
  rw [filterMap_eq_nil_iff]
  exact fun n hn => h n (mem_of_mem_filter hn) id

theorem no_ends (h : ∀ n ∈ notifications, ∀ id, n.endsLogin id = false) (id : JsText) :
    (next.filterNotifications notifications).countP (·.endsLogin id) = 0 := by
  rw [countP_eq_zero]
  intro n hn
  rw [h n (mem_of_mem_filter hn) id]
  exact Bool.false_ne_true

/-! ### The law -/

/-- What a request with an answer has to come to. -/
theorem clean_iff_of_result {id : JsValue} {next : AppServer} {reply : ServerReply}
    (hmessage : r.server.handleMessage call = respond id (next, .ok reply)) :
    r.Clean call ↔
      (∀ turnId, r.turnStory turnId ++
          (next.filterNotifications reply.notifications).filterMap (·.turnNews turnId) =
        lifeOf (next.turns.get turnId)) ∧
      ∀ loginId, r.loginEnds loginId +
        (next.filterNotifications reply.notifications).countP (·.endsLogin loginId) ≤ 1 := by
  have hturns : ∀ turnId, (r.step call).turnStory turnId = r.turnStory turnId ++
      (next.filterNotifications reply.notifications).filterMap (·.turnNews turnId) := by
    intro turnId
    rw [turnStory_step, hmessage, turnNews_respond]
  have hlogins : ∀ loginId, (r.step call).loginEnds loginId = r.loginEnds loginId +
      (next.filterNotifications reply.notifications).countP (·.endsLogin loginId) := by
    intro loginId
    rw [loginEnds_step, hmessage, endsLogin_respond]
  have hserver : (r.step call).server = next := by
    show (r.server.handleMessage call).1 = next
    rw [hmessage]
    rfl
  constructor
  · intro hclean
    refine ⟨fun turnId => ?_, fun loginId => ?_⟩
    · rw [← hturns, hclean.turns, hserver]
    · rw [← hlogins]
      exact hclean.logins loginId
  · rintro ⟨hstory, hends⟩
    constructor
    case answered => exact fun id => r.answered call
    case unchanged =>
      intro id' error hmem
      rw [hmessage] at hmem
      simp [respond] at hmem
    case turns =>
      intro turnId
      rw [hturns, hstory, hserver]
    case logins =>
      intro loginId
      rw [hlogins]
      exact hends loginId

/-- What is sent about no turn and no login, by a server whose turns are as before. -/
theorem Sound.clean_of_quiet (h : r.Sound)
    (hturns : (r.step call).server.turns = r.server.turns)
    (hnews : ∀ frame ∈ (r.server.handleMessage call).2, ∀ id,
      frame.turnNews id = none ∧ frame.endsLogin id = false)
    (hunchanged : ∀ id error, .error id error ∈ (r.server.handleMessage call).2 →
      (r.step call).server.threads = r.server.threads ∧
        (r.step call).server.logins = r.server.logins) : r.Clean call where
  answered := fun id => r.answered call
  unchanged := fun id error hmem =>
    ⟨(hunchanged id error hmem).1, hturns, (hunchanged id error hmem).2⟩
  turns := by
    intro id
    rw [turnStory_step, filterMap_eq_nil_iff.2 fun frame hframe => (hnews frame hframe id).1,
      append_nil, h.turns, hturns]
  logins := by
    intro id
    rw [loginEnds_step, countP_eq_zero.2]
    · exact h.logins id
    · intro frame hframe
      rw [(hnews frame hframe id).2]
      exact Bool.false_ne_true

/-- Idle requests are careful. -/
theorem careful_of_idle {id : JsValue} {method : JsText} {params : JsValue}
    (hrequest : call.message.request? = some (id, method, params))
    (hidle : r.server.Idle method params) : r.Careful call := by
  unfold AppServer.Idle at hidle
  unfold Careful
  simp only [hrequest]
  split at hidle
  · exact fun threadId input hparams => absurd hparams (hidle _)
  · exact fun turnId turn hparams => absurd hparams (hidle _)
  · intro loginId hparams hhas
    rw [hidle loginId hparams] at hhas
    cases hhas
  · trivial

/-- A message comes to what it must exactly when it is careful. -/
theorem Sound.clean_iff (h : r.Sound) (call : ServerCall) :
    r.Clean call ↔ r.Careful call := by
  cases hrequest : call.message.request? with
  | none =>
    obtain ⟨⟨b, hserver⟩, hnews, -⟩ := handleMessage_of_no_request (s := r.server) hrequest
    have hstep : (r.step call).server = { r.server with initialized := b } := hserver
    refine iff_of_true (h.clean_of_quiet (by rw [hstep]) hnews fun _ _ _ => ?_) ?_
    · rw [hstep]
      exact ⟨rfl, rfl⟩
    · simp [Careful, hrequest]
  | some request =>
    obtain ⟨id, method, params⟩ := request
    obtain ⟨hmessage, -⟩ := handleMessage_of_request (s := r.server) hrequest
    have heffect := handleRequest_effect (s := r.server) call method params
    generalize r.server.handleRequest call method params = x at heffect hmessage
    have hstep : (r.step call).server = (respond id x).1 := congrArg Prod.fst hmessage
    cases heffect with
    | failed error hidle =>
      refine iff_of_true (h.clean_of_quiet (by rw [hstep]; rfl) ?_ fun _ _ _ => ?_)
        (careful_of_idle hrequest hidle)
      · rw [hmessage]
        simp [respond, ServerFrame.turnNews, ServerFrame.endsLogin]
      · rw [hstep]
        exact ⟨rfl, rfl⟩
    | quiet next reply hidle hturns hsequence hnews =>
      refine iff_of_true ((clean_iff_of_result hmessage).2 ⟨fun turnId => ?_, fun loginId => ?_⟩)
        (careful_of_idle hrequest hidle)
      · rw [no_news next fun n hn id => (hnews n hn id).1, append_nil, h.turns, hturns]
      · rw [no_ends next fun n hn id => (hnews n hn id).2]
        exact h.logins loginId
    | canceled loginId login hmethod hparams hlogin =>
      rw [clean_iff_of_result hmessage, h.canceled_iff, and_iff_right]
      · have hhas : r.server.logins.has loginId = true := has_of_get hlogin
        simp only [Careful, hrequest, hmethod]
        constructor
        · rintro hzero loginId' hparams' -
          obtain rfl := Except.ok.inj (hparams.symm.trans hparams')
          exact hzero
        · exact fun hcareful => hcareful loginId hparams hhas
      · intro turnId
        rw [no_news _ (by simp [turnNews]), append_nil]
        exact h.turns turnId
    | started threadId input hmethod hparams hauto turn hturn =>
      subst hturn
      rw [clean_iff_of_result hmessage, h.started_iff, and_iff_left]
      · simp only [Careful, hrequest, hmethod]
        constructor
        · intro hann threadId' input' _
          exact ⟨hann, fun hon => by cases hauto.symm.trans hon⟩
        · exact fun hcareful => (hcareful threadId input hparams).1
      · intro loginId
        rw [no_ends _ (by simp [endsLogin])]
        exact h.logins loginId
    | broken threadId input error hmethod hparams hauto hcannot =>
      refine iff_of_false (fun hclean => ?_) fun hcareful => ?_
      · -- the turn that is not announced is there
        have hsame := (hclean.unchanged id error (by rw [hmessage]; exact mem_singleton.2 rfl)).2.1
        rw [hstep] at hsame
        have hget := congrArg (·.get (turnIdOf (r.server.turnSequence + 1))) hsame
        simp only [h.turns_get_new] at hget
        have hadded : (r.server.addTurn call.now threadId).1.turns.get
            (turnIdOf (r.server.turnSequence + 1)) =
              some (r.server.addTurn call.now threadId).2 := get_set_self _ _ _
        cases hadded.symm.trans hget
      · simp only [Careful, hrequest, hmethod] at hcareful
        exact hcannot ((hcareful threadId input hparams).2 hauto).1
    | completed threadId input next item turn completed hmethod hparams hauto hcan hturn hid hstatus
        hnext =>
      rw [clean_iff_of_result hmessage, h.completed_iff call threadId hturn hid hstatus hnext,
        and_iff_left]
      · simp only [Careful, hrequest, hmethod]
        constructor
        · rintro ⟨hstarted, hcompleted⟩ threadId' input' hparams'
          obtain ⟨rfl, rfl⟩ := Prod.mk.inj (Except.ok.inj (hparams.symm.trans hparams'))
          exact ⟨hstarted, fun _ => ⟨hcan, hcompleted⟩⟩
        · intro hcareful
          obtain ⟨hstarted, hrest⟩ := hcareful threadId input hparams
          exact ⟨hstarted, (hrest hauto).2⟩
      · intro loginId
        rw [no_ends _ (by simp [endsLogin])]
        exact h.logins loginId
    | interrupted turnId turn interrupted hmethod hparams hid hstatus =>
      rw [clean_iff_of_result hmessage, h.interrupted_iff hparams hid hstatus rfl, and_iff_left]
      · simp only [Careful, hrequest, hmethod]
        constructor
        · exact fun hann _ _ _ => hann
        · exact fun hcareful => hcareful turnId turn hparams
      · intro loginId
        rw [no_ends _ (by simp [endsLogin])]
        exact h.logins loginId

/-- A clean step keeps the invariant. -/
theorem Sound.of_clean (h : r.Sound) (hclean : r.Clean call) :
    (r.step call).Sound where
  turns := hclean.turns
  logins := hclean.logins
  numbered := by
    cases hrequest : call.message.request? with
    | none =>
      obtain ⟨⟨b, hserver⟩, -⟩ := handleMessage_of_no_request (s := r.server) hrequest
      show (r.server.handleMessage call).1.Numbered
      rw [hserver]
      exact h.numbered.congr rfl rfl
    | some request =>
      obtain ⟨id, method, params⟩ := request
      obtain ⟨hmessage, -⟩ := handleMessage_of_request (s := r.server) hrequest
      have hnumbered := (handleRequest_effect call method params).numbered h.numbered
      show (r.server.handleMessage call).1.Numbered
      rw [hmessage]
      generalize r.server.handleRequest call method params = x at hnumbered
      obtain ⟨next, error | reply⟩ := x
      all_goals exact hnumbered

theorem Sound.of_start (account : JsValue) (autoCompleteTurns : Bool)
    (maxNotificationsPerTurn : ℕ+) (verificationUrl : JsText) :
    (start (.new account autoCompleteTurns maxNotificationsPerTurn verificationUrl)).Sound where
  turns := fun _ => rfl
  numbered := ⟨nofun, fun _ _ => rfl⟩
  logins := fun _ => Nat.zero_le _

/-- Requests are answered, failures change nothing and turns and logins have clean lives in a run
exactly when its messages are careful. -/
theorem turnsClean_iff_careful (account : JsValue) (autoCompleteTurns : Bool)
    (maxNotificationsPerTurn : ℕ+) (verificationUrl : JsText) (calls : List ServerCall) :
    Along step Clean
        (start (.new account autoCompleteTurns maxNotificationsPerTurn verificationUrl)) calls ↔
      Along step Careful
        (start (.new account autoCompleteTurns maxNotificationsPerTurn verificationUrl)) calls :=
  along_iff_of_inductive (c := Sound) (fun _ call h => h.clean_iff call)
    (fun _ call h hcareful => h.of_clean ((h.clean_iff call).2 hcareful))
    (.of_start _ _ _ _) calls

/-- The request with a method and parameters. -/
def plainRequest (id : ℚ) (method : String) (params : List (JsText × JsValue)) : ServerCall where
  message := .value (.object .plain
    [(js "jsonrpc", .string (js "2.0")), (js "id", .number id), (js "method", .string (js method)),
      (js "params", .object .plain params)])
  now := 0
  later := 0
  modelResponseText := fun _ => .ok (js "done")

/-- A turn that needs three notifications where two are allowed: it fails, and is there. -/
theorem not_clean_limit :
    ¬Along step Clean (start (.new .null true 2 (js "url")))
      [plainRequest 1 "thread/start" [], plainRequest 2 "turn/start"
        [(js "threadId", .string (js "browser-thread-1")), (js "input", .array .plain [])]] := by
  rintro ⟨-, hclean, -⟩
  have hturns := (hclean.unchanged (.number 2) (AppServer.new .null true 2 []).turnLimitExceeded
    (mem_singleton.2 rfl)).2.1
  have hkeys := congrArg (fun turns => turns.keys.length) hturns
  revert hkeys
  decide +kernel

end ServerRun

end WasmHost

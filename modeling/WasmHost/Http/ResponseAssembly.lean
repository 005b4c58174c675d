import WasmHost.Http.StreamingCalls
import WasmHost.Lib.Fairness

/-!
# How a response is put together

The other direction of a request: a transport sends the response through its `HttpBridgeRequest`,
event by event, and the caller polls a channel with one slot, keeps the body in a buffer and leaves
with the completion. `request_blocking` and `request_async` differ in how they sleep, the two ways
of sending in what a full channel does.

* `ResponseCall.assembled`: what the caller returns, in every run and along every fair schedule.
* `ResponseCall.not_returns_failure`: the failure that a caller does not get to see.
-/

namespace WasmHost

open List

/-- Where the caller stands: handing the request to the dispatcher, waiting for the response, with a
result and about to cancel the request, about to drop the receiver, or past its return. -/
inductive ResponseCaller
  | submit (point : PollPoint)
  | receive (point : PollPoint)
  | leaving (result : Except HttpBridgeError HttpResponse)
  | dropping (result : Except HttpBridgeError HttpResponse)
  | returned (result : Except HttpBridgeError HttpResponse)

/-- A request and the transport that answers it. The token of the request is `requestCancelled`;
the one of the call is `cancelled`. -/
structure ResponseCall where
  caller : ResponseCaller
  responseBody : Bytes
  cancelled : Bool
  expired : Bool
  requestCancelled : Bool
  queue : List HttpBridgeResponseEvent
  /-- The transport has the request. -/
  accepted : Bool
  /-- It has dropped the request. -/
  released : Bool
  /-- What it is going to send, and where it stands with the first of these events. -/
  pending : List HttpBridgeResponseEvent
  point : SendPoint
  /-- What its sends have returned. -/
  sends : List (Except HttpBridgeError Unit)

/-- A party of a request that is being answered. -/
inductive ResponseParty
  | caller | transport
  deriving DecidableEq

/-- The steps of a response call. -/
inductive ResponseStep
  | poll (room : TrySend)
  | send
  | release
  | cancel
  | expire

namespace ResponseCall

/-- The call before its first step. -/
def start (events : List HttpBridgeResponseEvent) : ResponseCall where
  caller := .submit .cancelled
  responseBody := []
  cancelled := false
  expired := false
  requestCancelled := false
  queue := []
  accepted := false
  released := false
  pending := events
  point := .cancelled
  sends := []

section Steps

variable (limits : HttpRequestLimits) (mode : CallMode)

def goOn (caller : ResponseCaller) (s : ResponseCall) : ResponseCall := { s with caller := caller }

def leave (result : Except HttpBridgeError HttpResponse) (s : ResponseCall) : ResponseCall :=
  s.goOn (.leaving result)

variable (s : ResponseCall)

/-- `try_recv` and what the caller does with the answer. -/
def receive : ResponseCall :=
  match s.queue with
  | event :: rest =>
    match receiveEvent limits.responseBodyBytes s.responseBody event with
    | .ok body => { s with caller := .receive .cancelled, queue := rest, responseBody := body }
    | .error result => { s with caller := .leaving result, queue := rest }
  | [] =>
    if s.released then s.leave (.error (.transport "HTTP response channel closed"))
    else s.goOn (.receive .cancelled)

/-- One step of `request_blocking_inner` or `request_async_with_stream`. `room` is the answer of the
dispatcher's channel. -/
def poll (room : TrySend) (s : ResponseCall) : ResponseCall :=
  match s.caller with
  | .submit .cancelled =>
    if s.cancelled then s.leave (.error (.cancelled "HTTP request cancelled"))
    else s.goOn (.submit .deadline)
  | .submit .deadline =>
    if s.expired then s.leave (.error (.timeout "HTTP request exceeded wall time limit"))
    else s.goOn (.submit .channel)
  | .submit .channel =>
    match room with
    | .ok => { s with caller := .receive .cancelled, accepted := true }
    | .full => s.goOn (.submit .cancelled)
    | .closed => s.leave (.error (.gatewayUnavailable "HTTP bridge dispatcher is closed"))
  | .receive .cancelled =>
    if s.cancelled then s.leave (.error (.cancelled "HTTP request cancelled"))
    else s.goOn (.receive .deadline)
  | .receive .deadline =>
    if s.expired then s.leave (.error (.timeout "HTTP request exceeded wall time limit"))
    else s.goOn (.receive .channel)
  | .receive .channel => s.receive limits
  | .leaving result => { s with caller := .dropping result, requestCancelled := true }
  | .dropping result => { s with caller := .returned result, queue := [] }
  | .returned _ => s

/-- The call has returned. -/
def isReturned : Bool :=
  match s.caller with
  | .returned _ => true
  | _ => false

/-- The send of the first event returns. -/
def sent (result : Except HttpBridgeError Unit) (s : ResponseCall) : ResponseCall :=
  { s with pending := s.pending.tail, point := .cancelled, sends := s.sends ++ [result] }

/-- One step of `send_response_event_blocking` or `send_response_event_async`. -/
def send : ResponseCall :=
  match s.pending with
  | [] => s
  | event :: _ =>
    if s.accepted = false ∨ s.released = true then s
    else
      match s.point with
      | .cancelled =>
        if s.requestCancelled then s.sent (.error (.cancelled "HTTP request cancelled"))
        else { s with point := .channel }
      | .channel =>
        if s.isReturned then s.sent (.error (.transport "HTTP response receiver closed"))
        else if s.queue.length < httpResponseEventQueueSize then
          { s.sent (.ok ()) with queue := s.queue ++ [event] }
        else
          match mode with
          | .blocking => { s with point := .cancelled }
          -- the channel keeps the event until there is room
          | .async => s

/-- A step of the system. The request is dropped when everything has been sent. -/
def step : ResponseStep → ResponseCall
  | .poll room => s.poll limits room
  | .send => s.send mode
  | .release => if s.accepted = true ∧ s.pending = [] then { s with released := true } else s
  | .cancel => { s with cancelled := true }
  | .expire => if limits.wallTime.isSome then { s with expired := true } else s

/-- A step of one of the parties, with a dispatcher that takes requests. -/
def turn : ResponseParty → ResponseCall
  | .caller => s.poll limits .ok
  | .transport => s.send mode

end Steps

/-! ### What a caller makes of the events -/

/-- The result of a caller that has `body` and receives the events. -/
def assemble (limit : ℕ) : Bytes → List HttpBridgeResponseEvent →
    Option (Except HttpBridgeError HttpResponse)
  | _, [] => none
  | body, event :: rest =>
    match receiveEvent limit body event with
    | .ok body => assemble limit body rest
    | .error result => some result

/-- The events of a response. -/
def responseEvents (chunks : List Bytes) (completion : Except HttpBridgeError HttpResponse) :
    List HttpBridgeResponseEvent := chunks.map .body ++ [.complete completion]

/-- The response with the chunks in front of its body if that fits, and a failed completion if the
chunks in front of it do. -/
def completed (limit : ℕ) (sofar : Bytes) :
    Except HttpBridgeError HttpResponse → Except HttpBridgeError HttpResponse
  | .ok response =>
    if (sofar ++ response.body).length ≤ limit then
      .ok { response with body := sofar ++ response.body }
    else .error (responseTooLargeError limit)
  | .error error => .error (if sofar.length ≤ limit then error else responseTooLargeError limit)

section Assemble

variable {limit : ℕ} {body body' chunk : Bytes} {event : HttpBridgeResponseEvent}
    {rest : List HttpBridgeResponseEvent} {result : Except HttpBridgeError HttpResponse}

theorem assemble_cons_of_ok (h : receiveEvent limit body event = .ok body') :
    assemble limit body (event :: rest) = assemble limit body' rest := by
  rw [assemble, h]

theorem assemble_cons_of_error (h : receiveEvent limit body event = .error result) :
    assemble limit body (event :: rest) = some result := by
  rw [assemble, h]

theorem receiveEvent_body_of_le (h : body.length + chunk.length ≤ limit) :
    receiveEvent limit body (.body chunk) = .ok (body ++ chunk) := by
  rw [receiveEvent, appendResponseBody, if_neg (Nat.not_lt.2 h)]
  rfl

theorem receiveEvent_body_of_lt (h : limit < body.length + chunk.length) :
    receiveEvent limit body (.body chunk) = .error (.error (responseTooLargeError limit)) := by
  rw [receiveEvent, appendResponseBody, if_pos h]
  rfl

/-- The completion ends the response. -/
theorem receiveEvent_complete (hbody : body.length ≤ limit)
    (completion : Except HttpBridgeError HttpResponse) :
    receiveEvent limit body (.complete completion) = .error (completed limit body completion) := by
  cases completion with
  | ok response =>
    rw [receiveEvent, appendResponseBody, completed, length_append]
    by_cases hfits : body.length + response.body.length ≤ limit
    · rw [if_neg (Nat.not_lt.2 hfits), if_pos hfits]
    · rw [if_pos (Nat.not_le.1 hfits), if_neg hfits]
  | error => rw [receiveEvent, completed, if_pos hbody]

/-- A completion behind too many bytes. -/
theorem completed_of_lt (h : limit < body.length)
    (completion : Except HttpBridgeError HttpResponse) :
    completed limit body completion = .error (responseTooLargeError limit) := by
  cases completion with
  | ok response =>
    have hover : ¬(body ++ response.body).length ≤ limit := by
      rw [length_append]
      omega
    rw [completed, if_neg hover]
  | error => rw [completed, if_neg (Nat.not_le.2 h)]

theorem assemble_responseEvents (hbody : body.length ≤ limit) (chunks : List Bytes)
    (completion : Except HttpBridgeError HttpResponse) (further : List HttpBridgeResponseEvent) :
    assemble limit body (responseEvents chunks completion ++ further) =
      some (completed limit (body ++ chunks.flatten) completion) := by
  induction chunks generalizing body with
  | nil =>
    rw [flatten_nil, append_nil]
    exact assemble_cons_of_error (receiveEvent_complete hbody completion)
  | cons chunk chunks ih =>
    rw [flatten_cons, ← append_assoc]
    by_cases hfits : body.length + chunk.length ≤ limit
    · rw [← ih (by rwa [length_append])]
      exact assemble_cons_of_ok (receiveEvent_body_of_le hfits)
    · have hover : limit < (body ++ chunk ++ chunks.flatten).length := by
        simp only [length_append]
        omega
      rw [completed_of_lt hover]
      exact assemble_cons_of_error (receiveEvent_body_of_lt (Nat.not_le.1 hfits))

end Assemble

/-! ### Runs -/

/-- A result and what it is due to. -/
inductive Explained (expected : Except HttpBridgeError HttpResponse) (s : ResponseCall) :
    Except HttpBridgeError HttpResponse → Prop
  | answered : Explained expected s expected
  | cancelled (h : s.cancelled = true) :
      Explained expected s (.error (.cancelled "HTTP request cancelled"))
  | expired (h : s.expired = true) :
      Explained expected s (.error (.timeout "HTTP request exceeded wall time limit"))
  | closed (h : s.accepted = false) :
      Explained expected s (.error (.gatewayUnavailable "HTTP bridge dispatcher is closed"))

/-- The events that are on their way make up the result. -/
structure Expecting (limit : ℕ) (expected : Except HttpBridgeError HttpResponse)
    (s : ResponseCall) :
    Prop where
  token : s.requestCancelled = false
  assembled : assemble limit s.responseBody (s.queue ++ s.pending) = some expected

/-- Where a call stands. -/
inductive Phase (limit : ℕ) (expected : Except HttpBridgeError HttpResponse)
    (s : ResponseCall) : Prop
  | submitting (point : PollPoint) (hcaller : s.caller = .submit point)
      (hexpecting : Expecting limit expected s) (haccepted : s.accepted = false)
      (hqueue : s.queue = [])
  | receiving (point : PollPoint) (hcaller : s.caller = .receive point)
      (hexpecting : Expecting limit expected s) (haccepted : s.accepted = true)
  | leaving (result : Except HttpBridgeError HttpResponse) (hcaller : s.caller = .leaving result)
      (hresult : Explained expected s result)
  | dropping (result : Except HttpBridgeError HttpResponse) (hcaller : s.caller = .dropping result)
      (hresult : Explained expected s result) (htoken : s.requestCancelled = true)
  | returned (result : Except HttpBridgeError HttpResponse) (hcaller : s.caller = .returned result)
      (hresult : Explained expected s result) (htoken : s.requestCancelled = true)

/-- What holds in every state of a run whose events make up an expected result. -/
structure Sound (limit : ℕ) (expected : Except HttpBridgeError HttpResponse) (s : ResponseCall) :
    Prop where
  phase : Phase limit expected s
  room : s.queue.length ≤ httpResponseEventQueueSize
  released : s.released = true → s.pending = []

section Runs

variable {limits : HttpRequestLimits} {mode : CallMode}
    {expected result : Except HttpBridgeError HttpResponse} {s t : ResponseCall} {limit : ℕ}

/-- What a result is due to stays. -/
theorem Explained.of_eq (h : Explained expected s result) (hcancelled : s.cancelled = t.cancelled)
    (hexpired : s.expired = t.expired) (haccepted : s.accepted = t.accepted) :
    Explained expected t result := by
  cases h with
  | answered => exact .answered
  | cancelled h => exact .cancelled (hcancelled ▸ h)
  | expired h => exact .expired (hexpired ▸ h)
  | closed h => exact .closed (haccepted ▸ h)

theorem sound_start {events : List HttpBridgeResponseEvent}
    (h : assemble limits.responseBodyBytes [] events = some expected) :
    (start events).Sound limits.responseBodyBytes expected where
  phase := .submitting .cancelled rfl ⟨rfl, h⟩ rfl rfl
  room := Nat.zero_le _
  released h := by cases h

section

variable (h : s.Sound limits.responseBodyBytes expected)
include h

theorem Sound.leave (hresult : Explained expected s result) :
    (s.leave result).Sound limits.responseBodyBytes expected :=
  ⟨.leaving result rfl (hresult.of_eq rfl rfl rfl), h.room, h.released⟩

/-- The caller takes an event, if there is one. -/
theorem Sound.receive
    (hexpecting : Expecting limits.responseBodyBytes expected s) (haccepted : s.accepted = true) :
    (s.receive limits).Sound limits.responseBodyBytes expected := by
  obtain ⟨htoken, hassembled⟩ := hexpecting
  unfold ResponseCall.receive
  split
  next event rest hqueue =>
    rw [hqueue, cons_append] at hassembled
    have hroom : rest.length ≤ httpResponseEventQueueSize := by
      have hlength := h.room
      rw [hqueue, length_cons] at hlength
      exact (Nat.le_succ _).trans hlength
    split
    next body hevent =>
      rw [assemble_cons_of_ok hevent] at hassembled
      exact ⟨.receiving .cancelled rfl ⟨htoken, hassembled⟩ haccepted, hroom, h.released⟩
    next result hevent =>
      rw [assemble_cons_of_error hevent] at hassembled
      obtain rfl : result = expected := Option.some.inj hassembled
      exact ⟨.leaving result rfl .answered, hroom, h.released⟩
  next hqueue =>
    split
    next hreleased =>
      -- everything has been sent, and the completion is never the last event to be taken
      rw [hqueue, h.released hreleased] at hassembled
      cases hassembled
    · exact ⟨.receiving .cancelled rfl ⟨htoken, hassembled⟩ haccepted, h.room, h.released⟩

theorem Sound.poll (room : TrySend) :
    (s.poll limits room).Sound limits.responseBodyBytes expected := by
  unfold ResponseCall.poll
  cases h.phase with
  | submitting point hcaller hexpecting haccepted hqueue =>
    rw [hcaller]
    have hgo : ∀ point, (s.goOn (.submit point)).Sound limits.responseBodyBytes expected :=
      fun point => ⟨.submitting point rfl ⟨hexpecting.token, hexpecting.assembled⟩ haccepted hqueue,
        h.room, h.released⟩
    cases point with
    | cancelled =>
      dsimp only
      split
      next hcancelled => exact h.leave (.cancelled hcancelled)
      · exact hgo .deadline
    | deadline =>
      dsimp only
      split
      next hexpired => exact h.leave (.expired hexpired)
      · exact hgo .channel
    | channel =>
      cases room with
      | ok =>
        exact ⟨.receiving .cancelled rfl ⟨hexpecting.token, hexpecting.assembled⟩ rfl, h.room,
          h.released⟩
      | full => exact hgo .cancelled
      | closed => exact h.leave (.closed haccepted)
  | receiving point hcaller hexpecting haccepted =>
    rw [hcaller]
    have hgo : ∀ point, (s.goOn (.receive point)).Sound limits.responseBodyBytes expected :=
      fun point => ⟨.receiving point rfl ⟨hexpecting.token, hexpecting.assembled⟩ haccepted,
        h.room, h.released⟩
    cases point with
    | cancelled =>
      dsimp only
      split
      next hcancelled => exact h.leave (.cancelled hcancelled)
      · exact hgo .deadline
    | deadline =>
      dsimp only
      split
      next hexpired => exact h.leave (.expired hexpired)
      · exact hgo .channel
    | channel => exact h.receive hexpecting haccepted
  | leaving result hcaller hresult =>
    rw [hcaller]
    exact ⟨.dropping result rfl (hresult.of_eq rfl rfl rfl) rfl, h.room, h.released⟩
  | dropping result hcaller hresult htoken =>
    rw [hcaller]
    exact ⟨.returned result rfl (hresult.of_eq rfl rfl rfl) htoken, Nat.zero_le _, h.released⟩
  | returned result hcaller hresult htoken =>
    rw [hcaller]
    exact h

end

/-- What the transport can do in one step: nothing that counts, move an event into the channel, or
fail with its first event. -/
inductive Sent (s : ResponseCall) : ResponseCall → Prop
  | waited (point : SendPoint) : Sent s { s with point := point }
  | pushed (event : HttpBridgeResponseEvent) (rest : List HttpBridgeResponseEvent)
      (hpending : s.pending = event :: rest) (hqueue : s.queue = []) (haccepted : s.accepted = true)
      (hreturned : s.isReturned = false) :
      Sent s { s.sent (.ok ()) with queue := [event] }
  | failed (error : HttpBridgeError) (h : s.requestCancelled = true ∨ s.isReturned = true) :
      Sent s (s.sent (.error error))

theorem sent_send (mode : CallMode) (s : ResponseCall) : Sent s (s.send mode) := by
  have hsame : Sent s s := .waited s.point
  unfold send
  split
  · exact hsame
  next event rest hpending =>
    split
    · exact hsame
    next hready =>
      simp only [not_or, Bool.not_eq_false, Bool.not_eq_true] at hready
      split
      · split
        next hcancelled => exact .failed _ (.inl hcancelled)
        · exact .waited .channel
      · split
        next hreturned => exact .failed _ (.inr hreturned)
        next hreturned =>
          split
          next hroom =>
            have hqueue : s.queue = [] := length_eq_zero_iff.1 (Nat.lt_one_iff.1 hroom)
            rw [hqueue]
            exact .pushed event rest hpending hqueue hready.1 (Bool.not_eq_true _ ▸ hreturned)
          · cases mode with
            | blocking => exact .waited .cancelled
            | async => exact hsame

/-- What is behind the caller of a phase. -/
theorem Phase.of_eq (h : Phase limit expected s) (hcaller : t.caller = s.caller)
    (hbody : t.responseBody = s.responseBody)
    (hcancelled : t.cancelled = s.cancelled ∨ t.cancelled = true)
    (hexpired : t.expired = s.expired ∨ t.expired = true)
    (htoken : t.requestCancelled = s.requestCancelled) (haccepted : t.accepted = s.accepted)
    (hevents : s.requestCancelled = false → t.queue ++ t.pending = s.queue ++ s.pending)
    (hqueue : s.accepted = false → s.queue = [] → t.queue = []) : Phase limit expected t := by
  have hexplained : ∀ {result}, Explained expected s result → Explained expected t result := by
    intro result hresult
    cases hresult with
    | answered => exact .answered
    | cancelled h => exact .cancelled (hcancelled.elim (·.trans h) id)
    | expired h => exact .expired (hexpired.elim (·.trans h) id)
    | closed h => exact .closed (haccepted.trans h)
  have hexpecting : Expecting limit expected s → Expecting limit expected t := fun h =>
    ⟨htoken.trans h.token, by rw [hbody, hevents h.token]; exact h.assembled⟩
  cases h with
  | submitting point hplace h haccept hempty =>
    exact .submitting point (hcaller.trans hplace) (hexpecting h) (haccepted.trans haccept)
      (hqueue haccept hempty)
  | receiving point hplace h haccept =>
    exact .receiving point (hcaller.trans hplace) (hexpecting h) (haccepted.trans haccept)
  | leaving result hplace h => exact .leaving result (hcaller.trans hplace) (hexplained h)
  | dropping result hplace h hcancel =>
    exact .dropping result (hcaller.trans hplace) (hexplained h) (htoken.trans hcancel)
  | returned result hplace h hcancel =>
    exact .returned result (hcaller.trans hplace) (hexplained h) (htoken.trans hcancel)

/-- A call that has returned has cancelled its request. -/
theorem Phase.token (h : Phase limit expected s)
    (hover : s.requestCancelled = true ∨ s.isReturned = true) : s.requestCancelled = true := by
  rcases hover with htoken | hreturned
  · exact htoken
  · unfold isReturned at hreturned
    cases h with
    | submitting _ hcaller | receiving _ hcaller | leaving _ hcaller =>
      rw [hcaller] at hreturned
      cases hreturned
    | dropping _ _ _ htoken | returned _ _ _ htoken => exact htoken

theorem Sent.caller (h : s.Sent t) : t.caller = s.caller := by
  cases h with
  | waited | pushed | failed => rfl

theorem Sound.of_sent (h : s.Sound limits.responseBodyBytes expected) (hsent : s.Sent t) :
    t.Sound limits.responseBodyBytes expected := by
  cases hsent with
  | waited =>
    exact ⟨h.phase.of_eq rfl rfl (.inl rfl) (.inl rfl) rfl rfl (fun _ => rfl) fun _ => id,
      h.room, h.released⟩
  | pushed event rest hpending hqueue haccepted hreturned =>
    refine ⟨h.phase.of_eq rfl rfl (.inl rfl) (.inl rfl) rfl rfl (fun _ => ?_) fun hnot => ?_,
      le_rfl, fun hreleased => ?_⟩
    · rw [hqueue, hpending]
      change [event] ++ s.pending.tail = _
      rw [hpending]
      rfl
    · rw [haccepted] at hnot
      cases hnot
    · have hnone := h.released hreleased
      rw [hpending] at hnone
      cases hnone
  | failed error hover =>
    refine ⟨h.phase.of_eq rfl rfl (.inl rfl) (.inl rfl) rfl rfl (fun hnot => ?_) fun _ => id,
      h.room, fun hreleased => ?_⟩
    · rw [h.phase.token hover] at hnot
      cases hnot
    · change s.pending.tail = []
      rw [h.released hreleased]
      rfl

theorem Sound.step (h : s.Sound limits.responseBodyBytes expected) (e : ResponseStep) :
    (s.step limits mode e).Sound limits.responseBodyBytes expected := by
  cases e with
  | poll room => exact h.poll room
  | send => exact h.of_sent (s.sent_send mode)
  | release =>
    simp only [ResponseCall.step]
    split
    next hdone =>
      exact ⟨h.phase.of_eq rfl rfl (.inl rfl) (.inl rfl) rfl rfl (fun _ => rfl) fun _ => id,
        h.room, fun _ => hdone.2⟩
    · exact h
  | cancel =>
    exact ⟨h.phase.of_eq rfl rfl (.inr rfl) (.inl rfl) rfl rfl (fun _ => rfl) fun _ => id,
      h.room, h.released⟩
  | expire =>
    simp only [ResponseCall.step]
    split
    · exact ⟨h.phase.of_eq rfl rfl (.inl rfl) (.inr rfl) rfl rfl (fun _ => rfl) fun _ => id,
        h.room, h.released⟩
    · exact h

/-- The result of a call that has returned. -/
theorem Sound.explained (h : s.Sound limits.responseBodyBytes expected)
    (hreturned : s.caller = .returned result) : Explained expected s result := by
  cases h.phase with
  | submitting _ hcaller | receiving _ hcaller | leaving _ hcaller | dropping _ hcaller =>
    cases hcaller.symm.trans hreturned
  | returned result' hcaller h htoken =>
    cases hcaller.symm.trans hreturned
    exact h

/-- A call that has returned stays so. -/
theorem returned_step (h : s.caller = .returned result) (e : ResponseStep) :
    (s.step limits mode e).caller = .returned result := by
  cases e with
  | poll => simp only [ResponseCall.step, ResponseCall.poll, h]
  | send => exact (s.sent_send mode).caller.trans h
  | release =>
    simp only [ResponseCall.step]
    split <;> exact h
  | cancel => exact h
  | expire =>
    simp only [ResponseCall.step]
    split <;> exact h

/-- Then every step of a transport that has something to send ends with an error. -/
theorem Sound.fails (h : s.Sound limits.responseBodyBytes expected)
    (hreturned : s.caller = .returned result) (haccepted : s.accepted = true)
    (hpending : s.pending ≠ []) : ∃ error, s.send mode = s.sent (.error error) := by
  have htoken : s.requestCancelled = true :=
    h.phase.token (.inr (by unfold isReturned; rw [hreturned]))
  have hreleased : s.released = false := by
    by_contra hreleased
    exact hpending (h.released (Bool.not_eq_false _ ▸ hreleased))
  have hready : ¬(s.accepted = false ∨ s.released = true) := by simp [haccepted, hreleased]
  obtain ⟨event, rest, hcons⟩ := exists_cons_of_ne_nil hpending
  unfold ResponseCall.send
  rw [hcons]
  dsimp only
  rw [if_neg hready]
  cases s.point with
  | cancelled => exact ⟨_, if_pos htoken⟩
  | channel => exact ⟨_, if_pos (by unfold isReturned; rw [hreturned])⟩

/-! ### Fair schedules -/

/-- The checks left in a poll. -/
def pollRank : PollPoint → ℕ
  | .cancelled => 2
  | .deadline => 1
  | .channel => 0

/-- The checks left in a send. -/
def sendRank : SendPoint → ℕ
  | .cancelled => 1
  | .channel => 0

theorem pollRank_le (point : PollPoint) : pollRank point ≤ 2 := by cases point <;> decide

theorem sendRank_le (point : SendPoint) : sendRank point ≤ 1 := by cases point <;> decide

/-- The moves that the events still have to make: into the channel and out of it. -/
def moves (s : ResponseCall) : ℕ := 2 * s.pending.length + s.queue.length

/-- A caller that waits counts the steps up to the next move. -/
def rank (s : ResponseCall) : ℕ :=
  match s.caller with
  | .submit point => 4 * s.moves + 7 + pollRank point
  | .receive point =>
    4 * s.moves + 3 + if s.queue = [] then sendRank s.point else pollRank point
  | .leaving _ => 2
  | .dropping _ => 1
  | .returned _ => 0

/-- The party that makes the next move. -/
def helper (s : ResponseCall) : ResponseParty :=
  match s.caller with
  | .receive _ => if s.queue = [] then .transport else .caller
  | _ => .caller

variable {point : PollPoint}

theorem rank_of_empty (h : s.caller = .receive point) (hqueue : s.queue = []) :
    s.rank = 4 * s.moves + 3 + sendRank s.point := by
  rw [rank, h]
  exact congrArg _ (if_pos hqueue)

theorem rank_of_event (h : s.caller = .receive point) (hqueue : s.queue ≠ []) :
    s.rank = 4 * s.moves + 3 + pollRank point := by
  rw [rank, h]
  exact congrArg _ (if_neg hqueue)

theorem rank_of_receive (h : s.caller = .receive point) :
    4 * s.moves + 3 ≤ s.rank ∧ s.rank ≤ 4 * s.moves + 5 := by
  have hpoll := pollRank_le point
  have hsend := sendRank_le s.point
  by_cases hqueue : s.queue = []
  · rw [rank_of_empty h hqueue]
    omega
  · rw [rank_of_event h hqueue]
    omega

theorem rank_of_leaving (h : s.caller = .receive point) (t : ResponseCall)
    (ht : t.caller = .leaving result) : t.rank < s.rank := by
  have hrank := (rank_of_receive h).1
  have htwo : t.rank = 2 := by rw [rank, ht]
  omega

/-- A caller that waits for a transport with an empty channel. -/
theorem send_of_empty (h : s.Sound limits.responseBodyBytes expected)
    (hcaller : s.caller = .receive point) (hqueue : s.queue = []) :
    (s.send mode).rank < s.rank := by
  have hrank := rank_of_receive hcaller
  obtain ⟨htoken, haccepted, event, rest, hpending⟩ :
      s.requestCancelled = false ∧ s.accepted = true ∧ ∃ event rest, s.pending = event :: rest := by
    cases h.phase with
    | receiving point hcaller hexpecting haccepted =>
      refine ⟨hexpecting.token, haccepted, exists_cons_of_ne_nil fun hnil => ?_⟩
      have hassembled := hexpecting.assembled
      rw [hqueue, hnil] at hassembled
      cases hassembled
    | submitting _ hplace | leaving _ hplace | dropping _ hplace | returned _ hplace =>
      cases hplace.symm.trans hcaller
  have hreleased : s.released = false := by
    by_contra hreleased
    have hnone := h.released (Bool.not_eq_false _ ▸ hreleased)
    rw [hpending] at hnone
    cases hnone
  have hready : ¬(s.accepted = false ∨ s.released = true) := by simp [haccepted, hreleased]
  have hreturned : s.isReturned = false := by rw [isReturned, hcaller]
  have hroom : s.queue.length < httpResponseEventQueueSize := by
    rw [hqueue]
    exact Nat.one_pos
  unfold ResponseCall.send
  split
  next hnone =>
    rw [hpending] at hnone
    cases hnone
  next event' rest' hcons =>
    rw [if_neg hready]
    split
    next hpoint =>
      rw [if_neg (by rw [htoken]; decide), rank_of_empty hcaller hqueue,
        rank_of_empty (s := { s with point := .channel }) hcaller hqueue, hpoint]
      exact Nat.lt_succ_self _
    next hpoint =>
      rw [if_neg (by rw [hreturned]; decide), if_pos hroom]
      have hpushed := (rank_of_receive
        (s := { s.sent (.ok ()) with queue := s.queue ++ [event'] }) hcaller).2
      have hmoves : moves { s.sent (.ok ()) with queue := s.queue ++ [event'] } + 1 = s.moves := by
        simp only [moves, sent, hqueue, hpending, tail_cons, length_cons, length_append, length_nil]
        omega
      exact lt_of_le_of_lt hpushed (by omega)

/-- A caller that finds an event in the channel. -/
theorem poll_of_event (hcaller : s.caller = .receive point) (hqueue : s.queue ≠ []) :
    (s.poll limits .ok).rank < s.rank := by
  have hrank := rank_of_receive hcaller
  have hpoll : ∀ point', pollRank point' < pollRank point →
      (s.goOn (.receive point')).rank < s.rank := by
    intro point' hlt
    rw [rank_of_event hcaller hqueue, rank_of_event (s := s.goOn (.receive point')) rfl hqueue]
    exact Nat.add_lt_add_left hlt _
  have hleave : ∀ result, (s.leave result).rank < s.rank := fun result =>
    rank_of_leaving hcaller _ rfl
  unfold ResponseCall.poll
  rw [hcaller]
  cases point with
  | cancelled =>
    dsimp only
    split
    · exact hleave _
    · exact hpoll .deadline (by decide)
  | deadline =>
    dsimp only
    split
    · exact hleave _
    · exact hpoll .channel (by decide)
  | channel =>
    unfold ResponseCall.receive
    obtain ⟨event, rest, hcons⟩ := exists_cons_of_ne_nil hqueue
    rw [hcons]
    dsimp only
    split
    next body hevent =>
      have htaken := (@rank_of_receive { s with
        caller := .receive .cancelled, queue := rest, responseBody := body } .cancelled rfl).2
      have hmoves : moves { s with
          caller := .receive .cancelled, queue := rest, responseBody := body } + 1 = s.moves := by
        simp only [moves, hcons, length_cons]
        omega
      omega
    next result hevent => exact rank_of_leaving hcaller _ rfl

/-- A caller that finds the channel empty. -/
theorem poll_of_empty (hcaller : s.caller = .receive point) (hqueue : s.queue = []) :
    (s.poll limits .ok).rank < s.rank ∨
      ((s.poll limits .ok).rank = s.rank ∧ (s.poll limits .ok).helper = .transport) := by
  have hgo : ∀ point', (s.goOn (.receive point')).rank = s.rank ∧
      (s.goOn (.receive point')).helper = .transport := by
    intro point'
    refine ⟨?_, if_pos hqueue⟩
    rw [rank_of_empty hcaller hqueue, rank_of_empty (s := s.goOn (.receive point')) rfl hqueue]
    rfl
  have hleave : ∀ result, (s.leave result).rank < s.rank := fun result =>
    rank_of_leaving hcaller _ rfl
  unfold ResponseCall.poll
  rw [hcaller]
  cases point with
  | cancelled | deadline =>
    dsimp only
    split
    · exact .inl (hleave _)
    · exact .inr (hgo _)
  | channel =>
    unfold ResponseCall.receive
    rw [hqueue]
    dsimp only
    split
    · exact .inl (hleave _)
    · exact .inr (hgo _)

theorem rank_of_submit (h : s.caller = .submit point) :
    s.rank = 4 * s.moves + 7 + pollRank point := by
  rw [rank, h]

/-- A caller that hands its request to a dispatcher with room. -/
theorem poll_of_submit (hcaller : s.caller = .submit point) :
    (s.poll limits .ok).rank < s.rank := by
  have hrank := rank_of_submit hcaller
  have hpoll : ∀ point', pollRank point' < pollRank point →
      (s.goOn (.submit point')).rank < s.rank := by
    intro point' hlt
    rw [hrank, rank_of_submit (s := s.goOn (.submit point')) rfl]
    exact Nat.add_lt_add_left hlt _
  have hleave : ∀ result, (s.leave result).rank < s.rank := by
    intro result
    have htwo : (s.leave result).rank = 2 := rfl
    omega
  unfold ResponseCall.poll
  rw [hcaller]
  cases point with
  | cancelled =>
    dsimp only
    split
    · exact hleave _
    · exact hpoll .deadline (by decide)
  | deadline =>
    dsimp only
    split
    · exact hleave _
    · exact hpoll .channel (by decide)
  | channel =>
    have haccepted := (@rank_of_receive { s with caller := .receive .cancelled, accepted := true }
      .cancelled rfl).2
    refine lt_of_le_of_lt haccepted ?_
    rw [hrank]
    change 4 * s.moves + 5 < _
    omega

/-- A step of the transport that puts nothing into an empty channel the caller waits for. -/
theorem rank_of_sent (h : s.Sound limits.responseBodyBytes expected) (hsent : s.Sent t)
    (hwaits : ¬s.isReturned = true) (hbusy : ∀ point, s.caller = .receive point → s.queue ≠ []) :
    t.rank = s.rank ∧ t.helper = s.helper ∧ s.helper = .caller := by
  have hcaller := hsent.caller
  cases h.phase with
  | submitting point hplace hexpecting haccepted hqueue =>
    have hhelper : ∀ u : ResponseCall, u.caller = .submit point → u.helper = .caller :=
      fun u hu => by
      rw [helper, hu]
    refine ⟨?_, (hhelper t (hcaller.trans hplace)).trans (hhelper s hplace).symm, hhelper s hplace⟩
    rw [rank_of_submit hplace, rank_of_submit (hcaller.trans hplace)]
    cases hsent with
    | waited => rfl
    | pushed event rest hpending hqueue haccepted' hreturned =>
      rw [haccepted] at haccepted'
      cases haccepted'
    | failed error hover =>
      have htoken := h.phase.token hover
      rw [hexpecting.token] at htoken
      cases htoken
  | receiving point hplace hexpecting haccepted =>
    have hqueue := hbusy point hplace
    have hhelper :
        ∀ u : ResponseCall, u.caller = .receive point → u.queue ≠ [] → u.helper = .caller :=
      fun u hu hne => by
        rw [helper, hu]
        exact if_neg hne
    cases hsent with
    | waited point' =>
      refine ⟨?_, (hhelper _ hplace hqueue).trans (hhelper s hplace hqueue).symm,
        hhelper s hplace hqueue⟩
      rw [rank_of_event hplace hqueue,
        rank_of_event (s := { s with point := point' }) hplace hqueue]
      rfl
    | pushed event rest hpending hempty haccepted' hreturned => exact absurd hempty hqueue
    | failed error hover =>
      have htoken := h.phase.token hover
      rw [hexpecting.token] at htoken
      cases htoken
  | leaving result hplace hresult =>
    have hother :
        ∀ u : ResponseCall, u.caller = .leaving result → u.rank = 2 ∧ u.helper = .caller :=
      fun u hu => ⟨by rw [rank, hu], by rw [helper, hu]⟩
    obtain ⟨hrank, hhelper⟩ := hother s hplace
    obtain ⟨hrank', hhelper'⟩ := hother t (hcaller.trans hplace)
    exact ⟨hrank'.trans hrank.symm, hhelper'.trans hhelper.symm, hhelper⟩
  | dropping result hplace hresult htoken =>
    have hother :
        ∀ u : ResponseCall, u.caller = .dropping result → u.rank = 1 ∧ u.helper = .caller :=
      fun u hu => ⟨by rw [rank, hu], by rw [helper, hu]⟩
    obtain ⟨hrank, hhelper⟩ := hother s hplace
    obtain ⟨hrank', hhelper'⟩ := hother t (hcaller.trans hplace)
    exact ⟨hrank'.trans hrank.symm, hhelper'.trans hhelper.symm, hhelper⟩
  | returned result hplace hresult htoken => exact absurd (by rw [isReturned, hplace]) hwaits

theorem descends_caller (hwaits : ¬s.isReturned = true) :
    (s.poll limits .ok).isReturned = true ∨ (s.poll limits .ok).rank < s.rank ∨
      ((s.poll limits .ok).rank = s.rank ∧ (s.poll limits .ok).helper = s.helper ∧
        ResponseParty.caller ≠ s.helper) := by
  cases hcaller : s.caller with
  | submit => exact .inr (.inl (poll_of_submit hcaller))
  | receive =>
    by_cases hqueue : s.queue = []
    · have hempty : (s.poll limits .ok).rank < s.rank ∨ _ := poll_of_empty hcaller hqueue
      rcases hempty with hlower | ⟨hsame, hhelper⟩
      · exact .inr (.inl hlower)
      · have hnow : s.helper = .transport := by
          rw [helper, hcaller]
          exact if_pos hqueue
        rw [hnow]
        exact .inr (.inr ⟨hsame, hhelper, by decide⟩)
    · exact .inr (.inl (poll_of_event hcaller hqueue))
  | leaving result =>
    have hpoll :
        s.poll limits .ok = { s with caller := .dropping result, requestCancelled := true } := by
      rw [ResponseCall.poll, hcaller]
    have hrank : s.rank = 2 := by rw [rank, hcaller]
    rw [hpoll, hrank]
    exact .inr (.inl Nat.one_lt_two)
  | dropping result =>
    have hpoll : s.poll limits .ok = { s with caller := .returned result, queue := [] } := by
      rw [ResponseCall.poll, hcaller]
    rw [hpoll]
    exact .inl rfl
  | returned => exact absurd (by rw [isReturned, hcaller]) hwaits

theorem descends_transport (h : s.Sound limits.responseBodyBytes expected)
    (hwaits : ¬s.isReturned = true) :
    (s.send mode).isReturned = true ∨ (s.send mode).rank < s.rank ∨
      ((s.send mode).rank = s.rank ∧ (s.send mode).helper = s.helper ∧
        ResponseParty.transport ≠ s.helper) := by
  by_cases hempty : ∃ point, s.caller = .receive point ∧ s.queue = []
  · obtain ⟨point, hcaller, hqueue⟩ := hempty
    exact .inr (.inl (send_of_empty h hcaller hqueue))
  · have hbusy : ∀ point, s.caller = .receive point → s.queue ≠ [] := fun point hcaller hqueue =>
      hempty ⟨point, hcaller, hqueue⟩
    obtain ⟨hrank, hhelper, hcaller⟩ := rank_of_sent h (s.sent_send mode) hwaits hbusy
    rw [hcaller] at hhelper ⊢
    exact .inr (.inr ⟨hrank, hhelper, by decide⟩)

/-- The ranking of a call that has not returned. -/
def ranking (limits : HttpRequestLimits) (mode : CallMode)
    (expected : Except HttpBridgeError HttpResponse) :
    Ranking (turn limits mode) (Sound limits.responseBodyBytes expected)
      (fun s => s.isReturned = true) where
  rank := rank
  helper := helper
  keeps party h _ := by
    cases party with
    | caller => exact h.poll .ok
    | transport => exact h.of_sent (sent_send mode _)
  descends party h hwaits := by
    cases party with
    | caller => exact descends_caller hwaits
    | transport => exact descends_transport h hwaits

end Runs

/-! ### The result -/

/-- What a caller returns, in every run: the response with the chunks in front of its body if that
fits, the error of a failed completion if the chunks in front of it do, the error for a response
that is too large otherwise, or why it has left before. It returns along every fair schedule, and
from then on every step of a transport that has something to send ends with an error. -/
theorem assembled (limits : HttpRequestLimits) (mode : CallMode) (chunks : List Bytes)
    (completion : Except HttpBridgeError HttpResponse) (further : List HttpBridgeResponseEvent)
    (s : ResponseCall)
    (hreach : Reach (step limits mode) (start (responseEvents chunks completion ++ further)) s) :
    (∀ result, s.caller = .returned result →
        Explained (completed limits.responseBodyBytes chunks.flatten completion) s result ∧
        (∀ e, (s.step limits mode e).caller = .returned result) ∧
        (s.accepted = true → s.pending ≠ [] → ∃ error, s.send mode = s.sent (.error error))) ∧
      ∀ schedule, Fair schedule →
      ∃ n, (runTo (turn limits mode) schedule s n).isReturned = true := by
  have hsound : s.Sound limits.responseBodyBytes
      (completed limits.responseBodyBytes chunks.flatten completion) := by
    refine hreach.invariant (sound_start ?_) fun _ e h _ => h.step e
    rw [assemble_responseEvents (Nat.zero_le _), nil_append]
  exact ⟨fun result hreturned => ⟨hsound.explained hreturned, returned_step hreturned,
    hsound.fails hreturned⟩, fun schedule hfair => (ranking limits mode _).eventually hfair hsound⟩

/-- A caller with room for a single byte that is accepted, polls and leaves, and a transport that
sends as much as the channel takes. -/
def oneByteRun (chunk : Bytes) (completion : Except HttpBridgeError HttpResponse) : ResponseCall :=
  runAll (step ⟨1, none⟩ .blocking) (start (responseEvents [chunk] completion))
    (List.replicate 3 (.poll .ok) ++ [.send, .send] ++ List.replicate 3 (.poll .ok) ++
      [.send, .send] ++ List.replicate 5 (.poll .ok))

theorem assembled_page :
    Explained (completed 1 [0] (.ok ⟨200, [], []⟩)) (oneByteRun [0] (.ok ⟨200, [], []⟩))
      (.ok ⟨200, [], [0]⟩) := by
  have hreach : Reach (step ⟨1, none⟩ .blocking)
      (start (responseEvents [[0]] (.ok ⟨200, [], []⟩) ++ []))
        (oneByteRun [0] (.ok ⟨200, [], []⟩)) :=
    reach_runAll _ _
  exact ((assembled ⟨1, none⟩ .blocking [[0]] (.ok ⟨200, [], []⟩) [] _ hreach).1
    (.ok ⟨200, [], [0]⟩) rfl).1

/-- A chunk of two bytes and a failed completion: the caller returns that the response is too
large. -/
theorem not_returns_failure :
    ∃ s error result, Reach (step ⟨1, none⟩ .blocking)
        (start (responseEvents [[0, 0]] (.error error))) s ∧
      s.cancelled = false ∧ s.expired = false ∧ s.caller = .returned result ∧
        result ≠ .error error := by
  refine ⟨oneByteRun [0, 0] (.error (.transport "connection reset")), .transport "connection reset",
    .error (responseTooLargeError 1), reach_runAll _ _, rfl, rfl, rfl, fun heq => ?_⟩
  have hkind := congrArg HttpBridgeError.kind (Except.error.inj heq)
  cases hkind

end ResponseCall

end WasmHost

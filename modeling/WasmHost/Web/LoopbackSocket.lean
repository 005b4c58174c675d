import WasmHost.Lib.Run
import WasmHost.Web.RpcClient

/-!
# The loopback socket

`BrowserCodexAppServerLoopbackSocket` of `app-server-transport.js`, on which the client talks to a
runtime in the same thread. A chain of promises gives the messages that are sent to the runtime one
after another; the frames of an answer are emitted in one go.

The runtime is the surroundings of the socket: it answers when and with what it likes. Everybody may
call `send` and `close` at any time, the listeners of an event included, but no microtask runs while
the frames of an answer are emitted. Microtasks run in the order they are queued in, so that the one
of the constructor comes before all others.

An error is told with a message or the text of its value. Where the value has neither, the chain of
promises is rejected with what its text has thrown, and the next message is lost to that.

* `SocketRun.orderly`: the messages are answered one at a time and in order, and what is emitted is
  what the answers ask for, up to the close.
-/

namespace WasmHost

open List Tool

/-- The values of `readyState`. -/
inductive ReadyState
  | socketOpen
  | socketClosing
  | socketClosed
  deriving DecidableEq

/-- What `handleMessage` comes to. -/
inductive RuntimeReply (φ : Type)
  | frames (frames : List φ)
  | notArray
  | rejected (error : JsValue)

/-- The events of a socket. -/
inductive SocketEvent (τ : Type)
  | opened
  | message (data : τ)
  | error (error : RpcError)
  | close (code : ℕ) (reason : String)

/-- Where the chain of promises is. -/
inductive DispatchPhase (φ : Type)
  | idle
  /-- The runtime has a message. -/
  | awaiting
  /-- The frames of an answer that are left. -/
  | emitting (frames : List φ)
  /-- `_dispatch` has thrown, or was not called because the chain was rejected. -/
  | failed (error : RpcError)
  /-- The chain is rejected: an error could not be told. -/
  | rejected (error : JsValue)

/-- A socket, with the messages that are not dispatched yet and the microtasks that are queued. -/
structure LoopbackSocket (δ φ : Type) where
  readyState : ReadyState
  dispatchQueue : List δ
  phase : DispatchPhase φ
  openQueued : Bool
  closeQueued : Option (ℕ × String)

variable {δ φ τ : Type} (stringify : φ → Except JsValue τ) (texts : TextForms)

namespace LoopbackSocket

def new : LoopbackSocket δ φ := ⟨.socketOpen, [], .idle, true, none⟩

variable (s : LoopbackSocket δ φ)

/-- Queues a message. -/
def send (data : δ) : Except RpcError (LoopbackSocket δ φ) :=
  if s.readyState = .socketOpen then .ok { s with dispatchQueue := s.dispatchQueue ++ [data] }
  else .error (.transport "closed"
    (.string (js "browser app-server loopback socket is not open")))

/-- Starts to close. -/
def close (code : Option ℕ) (reason : Option String) : LoopbackSocket δ φ :=
  if s.readyState = .socketClosing ∨ s.readyState = .socketClosed then s
  else { s with
    readyState := .socketClosing
    closeQueued := some (code.getD 1000, reason.getD "") }

/-- The microtask of the constructor. -/
def openTask : LoopbackSocket δ φ × List (SocketEvent τ) :=
  ({ s with openQueued := false }, if s.readyState = .socketOpen then [.opened] else [])

/-- The microtask of `close`. -/
def closeTask (code : ℕ) (reason : String) : LoopbackSocket δ φ × List (SocketEvent τ) :=
  if s.readyState = .socketClosed then ({ s with closeQueued := none }, [])
  else ({ s with readyState := .socketClosed, closeQueued := none }, [.close code reason])

/-- `_dispatch` up to its `await`, with the message that the runtime gets. -/
def dispatch (data : δ) (queue : List δ) : LoopbackSocket δ φ × List δ :=
  if s.readyState = .socketOpen then
    ({ s with dispatchQueue := queue, phase := .awaiting }, [data])
  else ({ s with dispatchQueue := queue }, [])

/-- The callback of `then` is skipped when the chain is rejected. -/
def skip (queue : List δ) (error : JsValue) : LoopbackSocket δ φ :=
  { s with dispatchQueue := queue, phase := .failed (.thrown error) }

/-- The callback of `catch`. -/
def catchError (error : RpcError) : LoopbackSocket δ φ × List (SocketEvent τ) :=
  match error.untold texts with
  | none => ({ s with phase := .idle }, [.error error])
  | some thrown => ({ s with phase := .rejected thrown }, [])

/-- What `_dispatch` makes of the answer that it has awaited. -/
def replyPhase : RuntimeReply φ → DispatchPhase φ
  | .frames frames => .emitting frames
  | .notArray => .failed (.transport "invalid_runtime_response"
      (.string (js "browser app-server runtime must return an array of frames")))
  | .rejected error => .failed (.thrown error)

/-- A round of the loop of `_dispatch`. -/
def emitFrame : List φ → LoopbackSocket δ φ × List (SocketEvent τ)
  | [] => ({ s with phase := .idle }, [])
  | frame :: frames =>
    if s.readyState = .socketOpen then
      match stringify frame with
      | .ok data => ({ s with phase := .emitting frames }, [.message data])
      | .error error => ({ s with phase := .failed (.thrown error) }, [])
    else ({ s with phase := .idle }, [])

end LoopbackSocket

/-! ### Runs -/

/-- What is called, or goes on, in the socket. -/
inductive SocketCall (δ φ : Type)
  | send (data : δ)
  | close (code : Option ℕ) (reason : Option String)
  | openTask
  | closeTask
  | dispatch
  | reply (reply : RuntimeReply φ)
  | emitFrame
  | catchError

/-- A socket with the messages that `send` has taken, those whose turn has come, the answers to
them, what was emitted, and what the runtime had got and was emitted when the socket was closed. The
turn of a message is lost to what was thrown when the error before it was to be told, and this
counts as an answer that is rejected. -/
structure SocketRun (δ φ τ : Type) where
  socket : LoopbackSocket δ φ
  sent : List δ
  turns : List (δ × Option JsValue)
  replies : List (RuntimeReply φ)
  events : List (SocketEvent τ)
  atClose : Option (List δ × List (SocketEvent τ))

namespace SocketRun

def start : SocketRun δ φ τ := ⟨.new, [], [], [], [], none⟩

/-- The messages that the runtime has got. -/
def handled (r : SocketRun δ φ τ) : List δ :=
  (r.turns.filter fun turn => turn.2.isNone).map Prod.fst

/-- Tells events. -/
def emit (r : SocketRun δ φ τ) (next : LoopbackSocket δ φ × List (SocketEvent τ)) :
    SocketRun δ φ τ :=
  { r with socket := next.1, events := r.events ++ next.2 }

/-- What cannot happen in the phase of the socket changes nothing. -/
def step (r : SocketRun δ φ τ) : SocketCall δ φ → SocketRun δ φ τ
  | .send data =>
    match r.socket.send data with
    | .ok socket => { r with socket, sent := r.sent ++ [data] }
    | .error _ => r
  | .close code reason =>
    { r with
      socket := r.socket.close code reason
      atClose := r.atClose.or (some (r.handled, r.events)) }
  | .openTask =>
    if r.socket.openQueued = true then r.emit r.socket.openTask else r
  | .closeTask =>
    match r.socket.openQueued, r.socket.phase, r.socket.closeQueued with
    | false, .emitting _, _ => r
    | false, _, some (code, reason) => r.emit (r.socket.closeTask code reason)
    | _, _, _ => r
  | .dispatch =>
    match r.socket.openQueued, r.socket.phase, r.socket.dispatchQueue with
    | false, .idle, data :: queue =>
      { r with
        socket := (r.socket.dispatch data queue).1
        turns := r.turns ++ (r.socket.dispatch data queue).2.map (·, none) }
    | false, .rejected error, data :: queue =>
      { r with
        socket := r.socket.skip queue error
        turns := r.turns ++ [(data, some error)]
        replies := r.replies ++ [.rejected error] }
    | _, _, _ => r
  | .reply reply =>
    match r.socket.phase with
    | .awaiting =>
      { r with
        socket := { r.socket with phase := LoopbackSocket.replyPhase reply }
        replies := r.replies ++ [reply] }
    | _ => r
  | .emitFrame =>
    match r.socket.phase with
    | .emitting frames => r.emit (r.socket.emitFrame stringify frames)
    | _ => r
  | .catchError =>
    match r.socket.phase with
    | .failed error => r.emit (r.socket.catchError texts error)
    | _ => r

end SocketRun

/-! ### The order of the events -/

/-- An error, if it can be told. -/
def RpcError.told (error : RpcError) : List (SocketEvent τ) :=
  if (error.untold texts).isNone = true then [.error error] else []

/-- The events that frames ask for: a message for each, or the error of the first without a text. -/
def frameEvents : List φ → List (SocketEvent τ)
  | [] => []
  | frame :: frames =>
    match stringify frame with
    | .ok data => .message data :: frameEvents frames
    | .error error => (RpcError.thrown error).told texts

/-- What is thrown when the error of the first frame without a text is told. -/
def frameUntold : List φ → Option JsValue
  | [] => none
  | frame :: frames =>
    match stringify frame with
    | .ok _ => frameUntold frames
    | .error error => (RpcError.thrown error).untold texts

/-- The events that a phase is still to emit. -/
def DispatchPhase.events : DispatchPhase φ → List (SocketEvent τ)
  | .idle | .awaiting | .rejected _ => []
  | .emitting frames => frameEvents stringify texts frames
  | .failed error => error.told texts

/-- What a phase is still to throw when an error is told, or has thrown. -/
def DispatchPhase.untold : DispatchPhase φ → Option JsValue
  | .idle | .awaiting => none
  | .emitting frames => frameUntold stringify texts frames
  | .failed error => error.untold texts
  | .rejected error => some error

def RuntimeReply.events (reply : RuntimeReply φ) : List (SocketEvent τ) :=
  (LoopbackSocket.replyPhase reply).events stringify texts

def RuntimeReply.untold (reply : RuntimeReply φ) : Option JsValue :=
  (LoopbackSocket.replyPhase reply).untold stringify texts

/-- The types of events. -/
inductive EventType
  | opened
  | message
  | error
  | close
  deriving DecidableEq

/-- The type of an event. -/
def SocketEvent.type : SocketEvent τ → EventType
  | .opened => .opened
  | .message _ => .message
  | .error _ => .error
  | .close _ _ => .close

/-- The events of a run that the answers of the runtime lead to. -/
def SocketRun.answered (r : SocketRun δ φ τ) : List (SocketEvent τ) :=
  r.events.filter fun event => event.type = .message ∨ event.type = .error

namespace SocketRun

/-- The messages have their turn one at a time and in order, and the runtime gets each of them but
those that are lost behind an error that could not be told. What is emitted is what its answers ask
for, in order too; nothing is missed as long as the socket is open. The first event is the one of
the opening, if there is that. Once the socket is closed the runtime gets no message and none is
emitted, but one error may be; the close is told once. -/
structure Orderly (r : SocketRun δ φ τ) : Prop where
  inTurn : ∃ skipped, r.sent = r.turns.map Prod.fst ++ skipped ++ r.socket.dispatchQueue ∧
    (r.socket.readyState = .socketOpen ∨ r.socket.phase ≠ .idle → skipped = [])
  oneAtATime :
    (r.socket.phase = .awaiting ∧ r.turns.length = r.replies.length + 1) ∨
    (r.socket.phase ≠ .awaiting ∧ r.turns.length = r.replies.length)
  lost : r.turns.map Prod.snd <+: none :: r.replies.map (RuntimeReply.untold stringify texts)
  due : r.socket.readyState = .socketOpen ∨ r.socket.phase ≠ .idle → r.socket.phase ≠ .awaiting →
    r.turns.map Prod.snd ++ [r.socket.phase.untold stringify texts] =
      none :: r.replies.map (RuntimeReply.untold stringify texts)
  inOrder : ∃ dropped,
    r.answered ++ r.socket.phase.events stringify texts ++ dropped =
      r.replies.flatMap (RuntimeReply.events stringify texts) ∧
    (dropped = [] ∨ (r.socket.readyState ≠ .socketOpen ∧ r.socket.phase = .idle))
  opening : ∀ event ∈ r.events.tail, event.type ≠ .opened
  untouched : r.socket.openQueued = true → r.socket.phase = .idle ∧ r.events = []
  closing : r.socket.readyState = .socketClosing ↔ r.socket.closeQueued.isSome = true
  closed : r.events.countP (·.type = .close) =
    if r.socket.readyState = .socketClosed then 1 else 0
  notClosed : r.socket.readyState = .socketOpen ↔ r.atClose = none
  afterClose : ∀ handled events, r.atClose = some (handled, events) → r.handled = handled ∧
    ∃ late, r.events = events ++ late ∧
      (∀ event ∈ late, event.type ≠ .message ∧ event.type ≠ .opened) ∧
      late.countP (·.type = .error) ≤ 1 ∧
      (r.socket.phase ≠ .idle → late.countP (·.type = .error) = 0)

variable {stringify texts} {r : SocketRun δ φ τ}

theorem answered_emit (next : LoopbackSocket δ φ × List (SocketEvent τ)) :
    (r.emit next).answered = r.answered ++
      next.2.filter fun event => event.type = .message ∨ event.type = .error :=
  filter_append _ _

namespace Orderly

theorem of_start : (start : SocketRun δ φ τ).Orderly stringify texts where
  inTurn := ⟨[], rfl, fun _ => rfl⟩
  oneAtATime := .inr ⟨nofun, rfl⟩
  lost := nil_prefix
  due := fun _ _ => rfl
  inOrder := ⟨[], rfl, .inl rfl⟩
  opening := nofun
  untouched := fun _ => ⟨rfl, rfl⟩
  closing := ⟨nofun, nofun⟩
  closed := rfl
  notClosed := ⟨fun _ => rfl, fun _ => rfl⟩
  afterClose := nofun

variable (h : r.Orderly stringify texts)
include h

theorem send (data : δ) : (r.step stringify texts (.send data)).Orderly stringify texts := by
  rw [SocketRun.step, LoopbackSocket.send]
  split
  next socket hsend =>
    split_ifs at hsend with hopen
    obtain rfl := Except.ok.inj hsend
    obtain ⟨skipped, hsent, hnone⟩ := h.inTurn
    refine { h with inTurn := ⟨skipped, ?_, hnone⟩ }
    rw [hsent, append_assoc]
  · exact h

theorem close (code : Option ℕ) (reason : Option String) :
    (r.step stringify texts (.close code reason)).Orderly stringify texts := by
  rw [SocketRun.step, LoopbackSocket.close]
  split_ifs with hstate
  · -- a second `close` does nothing
    have hclosed : r.atClose ≠ none := by
      rw [Ne, ← h.notClosed]
      rcases hstate with hstate | hstate <;> rw [hstate] <;> exact nofun
    obtain ⟨before, hbefore⟩ := Option.ne_none_iff_exists'.1 hclosed
    have hsame : r.atClose.or (some (r.handled, r.events)) = r.atClose := by rw [hbefore]; rfl
    rw [hsame]
    exact h
  · have hopen : r.socket.readyState = .socketOpen := by
      cases hready : r.socket.readyState <;> simp_all
    rw [h.notClosed.1 hopen]
    obtain ⟨skipped, hsent, hnone⟩ := h.inTurn
    obtain ⟨dropped, horder, hdropped⟩ := h.inOrder
    have hnotDropped : dropped = [] := hdropped.resolve_right fun hd => hd.1 hopen
    exact { h with
      inTurn := ⟨skipped, hsent, fun _ => hnone (.inl hopen)⟩
      due := fun hbusy => h.due (.inr (hbusy.resolve_left nofun))
      inOrder := ⟨dropped, horder, .inl hnotDropped⟩
      closing := ⟨fun _ => rfl, fun _ => rfl⟩
      closed := by
        rw [h.closed, hopen]
        rfl
      notClosed := ⟨nofun, nofun⟩
      afterClose := by
        rintro handled events heq
        obtain ⟨rfl, rfl⟩ := Prod.mk.inj (Option.some.inj heq)
        exact ⟨rfl, [], (append_nil _).symm, nofun, Nat.zero_le 1, fun _ => rfl⟩ }

theorem opening_concat {event : SocketEvent τ} (hevent : event.type ≠ .opened) :
    ∀ e ∈ (r.events ++ [event]).tail, e.type ≠ .opened := by
  intro e he
  have hopening := h.opening
  cases hevents : r.events with
  | nil =>
    rw [hevents] at he
    cases he
  | cons first rest =>
    rw [hevents] at he hopening
    rcases mem_append.1 he with he | he
    · exact hopening e he
    · rwa [mem_singleton.1 he]

theorem closed_concat {event : SocketEvent τ} (hevent : event.type ≠ .close) :
    (r.events ++ [event]).countP (·.type = .close) =
      if r.socket.readyState = .socketClosed then 1 else 0 := by
  simp [countP_append, h.closed, hevent]

/-- An event that is emitted after the close. -/
theorem afterClose_concat (event : SocketEvent τ) (hmessage : event.type ≠ .message)
    (hopened : event.type ≠ .opened) {handled : List δ} {events : List (SocketEvent τ)}
    (heq : r.atClose = some (handled, events)) :
    r.handled = handled ∧ ∃ late n, r.events ++ [event] = events ++ late ∧
      (∀ e ∈ late, e.type ≠ .message ∧ e.type ≠ .opened) ∧
      late.countP (·.type = .error) = n + (if event.type = .error then 1 else 0) ∧
      n ≤ 1 ∧ (r.socket.phase ≠ .idle → n = 0) := by
  obtain ⟨hhandled, late, hevents, hlate, hcount⟩ := h.afterClose handled events heq
  refine ⟨hhandled, late ++ [event], _, ?_, ?_, ?_, hcount⟩
  · rw [hevents, append_assoc]
  · intro e he
    rcases mem_append.1 he with he | he
    · exact hlate e he
    · rw [mem_singleton.1 he]
      exact ⟨hmessage, hopened⟩
  · rw [countP_append, countP_singleton]
    simp only [decide_eq_true_eq]

/-- What comes behind the close while an answer is not done with. -/
theorem afterClose_of_busy (hbusy : r.socket.phase ≠ .idle) (phase : DispatchPhase φ)
    (handled : List δ) (events : List (SocketEvent τ)) (heq : r.atClose = some (handled, events)) :
    r.handled = handled ∧ ∃ late, r.events = events ++ late ∧
      (∀ e ∈ late, e.type ≠ .message ∧ e.type ≠ .opened) ∧ late.countP (·.type = .error) ≤ 1 ∧
      (phase ≠ .idle → late.countP (·.type = .error) = 0) := by
  obtain ⟨hhandled, late, hevents, hlate, hone, hzero⟩ := h.afterClose handled events heq
  exact ⟨hhandled, late, hevents, hlate, hone, fun _ => hzero hbusy⟩

theorem atClose_ne (hopen : r.socket.readyState = .socketOpen)
    (before : List δ × List (SocketEvent τ)) : r.atClose ≠ some before := by
  rw [h.notClosed.1 hopen]
  exact nofun

/-- No frame is dropped by a socket that is open or not done with an answer. -/
theorem nothing_dropped (hbusy : r.socket.readyState = .socketOpen ∨ r.socket.phase ≠ .idle) :
    r.answered ++ r.socket.phase.events stringify texts =
      r.replies.flatMap (RuntimeReply.events stringify texts) := by
  obtain ⟨dropped, horder, rfl | ⟨hopen, hidle⟩⟩ := h.inOrder
  · rwa [append_nil] at horder
  · exact absurd hidle (hbusy.resolve_left hopen)

/-- Nor does it skip a message. -/
theorem nothing_skipped (hbusy : r.socket.readyState = .socketOpen ∨ r.socket.phase ≠ .idle) :
    r.sent = r.turns.map Prod.fst ++ [] ++ r.socket.dispatchQueue := by
  obtain ⟨skipped, hsent, hnone⟩ := h.inTurn
  rwa [hnone hbusy] at hsent

theorem openTask (hqueued : r.socket.openQueued = true) :
    (r.emit r.socket.openTask).Orderly stringify texts := by
  rw [LoopbackSocket.openTask]
  split_ifs with hopen
  · exact { h with
      inOrder := by
        rw [answered_emit]
        simpa [SocketRun.emit, SocketEvent.type] using h.inOrder
      opening := by
        rw [SocketRun.emit, (h.untouched hqueued).2]
        exact nofun
      untouched := nofun
      closed := h.closed_concat nofun
      afterClose := fun handled events heq => absurd heq (h.atClose_ne hopen _) }
  · rw [SocketRun.emit, append_nil]
    exact { h with untouched := nofun }

theorem closeTask (hqueued : r.socket.openQueued = false) {code : ℕ} {reason : String}
    (hclose : r.socket.closeQueued = some (code, reason)) :
    (r.emit (r.socket.closeTask code reason)).Orderly stringify texts := by
  have hclosing : r.socket.readyState = .socketClosing := by
    rw [h.closing, hclose]
    rfl
  rw [LoopbackSocket.closeTask, if_neg (by rw [hclosing]; exact nofun)]
  obtain ⟨skipped, hsent, hnone⟩ := h.inTurn
  obtain ⟨dropped, horder, hdropped⟩ := h.inOrder
  exact { h with
    inTurn := ⟨skipped, hsent, fun hbusy => hnone (.inr (hbusy.resolve_left nofun))⟩
    due := fun hbusy => h.due (.inr (hbusy.resolve_left nofun))
    inOrder := by
      refine ⟨dropped, ?_, hdropped.imp_right fun hd => ⟨nofun, hd.2⟩⟩
      rw [answered_emit]
      simpa [SocketRun.emit, SocketEvent.type] using horder
    opening := h.opening_concat nofun
    untouched := fun hopen => absurd (hqueued.symm.trans hopen) nofun
    closing := ⟨nofun, nofun⟩
    closed := by
      rw [SocketRun.emit, countP_append, h.closed, hclosing]
      rfl
    notClosed := ⟨nofun, fun hnot => absurd (hclosing.symm.trans (h.notClosed.2 hnot)) nofun⟩
    afterClose := by
      intro handled events heq
      obtain ⟨hhandled, late, n, hevents, hlate, rfl, hcount⟩ :=
        h.afterClose_concat (.close code reason) nofun nofun heq
      exact ⟨hhandled, late, hevents, hlate, hcount⟩ }

theorem dispatch (hqueued : r.socket.openQueued = false) (hidle : r.socket.phase = .idle) {data : δ}
    {queue : List δ} (hqueue : r.socket.dispatchQueue = data :: queue) :
    Orderly stringify texts { r with
      socket := (r.socket.dispatch data queue).1
      turns := r.turns ++ (r.socket.dispatch data queue).2.map (·, none) } := by
  obtain ⟨skipped, hsent, hnone⟩ := h.inTurn
  rw [hqueue] at hsent
  rw [LoopbackSocket.dispatch]
  split_ifs with hopen
  · obtain rfl := hnone (.inl hopen)
    have hnotAwaiting : r.socket.phase ≠ .awaiting := by
      rw [hidle]
      exact nofun
    have hlength := (h.oneAtATime.resolve_left fun ha => hnotAwaiting ha.1).2
    have horder := h.nothing_dropped (.inl hopen)
    have hdue := h.due (.inl hopen) hnotAwaiting
    rw [hidle] at horder hdue
    exact { h with
      inTurn := by
        refine ⟨[], ?_, fun _ => rfl⟩
        rw [hsent]
        simp
      oneAtATime := .inl ⟨rfl, by rw [length_append, hlength]; rfl⟩
      lost := by
        rw [map_append, ← hdue]
        exact prefix_refl _
      due := fun _ hphase => absurd rfl hphase
      inOrder := ⟨[], by rw [append_nil]; exact horder, .inl rfl⟩
      untouched := fun hq => absurd (hqueued.symm.trans hq) nofun
      afterClose := fun handled events heq => absurd heq (h.atClose_ne hopen _) }
  · rw [map_nil, append_nil]
    refine { h with inTurn := ⟨skipped ++ [data], ?_, ?_⟩ }
    · rw [hsent]
      simp
    · rintro (hr | hphase)
      · exact absurd hr hopen
      · exact absurd hidle hphase

/-- The turn of a message that is lost. -/
theorem skip {error : JsValue} (hrejected : r.socket.phase = .rejected error) {data : δ}
    {queue : List δ} (hqueue : r.socket.dispatchQueue = data :: queue) :
    Orderly stringify texts { r with
      socket := r.socket.skip queue error
      turns := r.turns ++ [(data, some error)]
      replies := r.replies ++ [.rejected error] } := by
  have hbusy : r.socket.phase ≠ .idle := by
    rw [hrejected]
    exact nofun
  have hnotAwaiting : r.socket.phase ≠ .awaiting := by
    rw [hrejected]
    exact nofun
  have hsent := h.nothing_skipped (.inr hbusy)
  have hdue := h.due (.inr hbusy) hnotAwaiting
  have horder := h.nothing_dropped (.inr hbusy)
  rw [hqueue] at hsent
  rw [hrejected] at hdue horder
  exact { h with
    inTurn := by
      refine ⟨[], ?_, fun _ => rfl⟩
      rw [hsent]
      simp [LoopbackSocket.skip]
    oneAtATime := by
      refine .inr ⟨nofun, ?_⟩
      rw [length_append, length_append]
      exact congrArg (· + 1) (h.oneAtATime.resolve_left fun ha => hnotAwaiting ha.1).2
    lost := by
      rw [map_append, map_append, ← cons_append, ← hdue]
      exact prefix_append _ _
    due := by
      intro _ _
      rw [map_append, map_append, ← cons_append, ← hdue]
      rfl
    inOrder := by
      refine ⟨[], ?_, .inl rfl⟩
      rw [flatMap_append, ← horder]
      simp [LoopbackSocket.skip, LoopbackSocket.replyPhase, DispatchPhase.events,
        RuntimeReply.events, answered]
    untouched := fun hq => absurd (h.untouched hq).1 hbusy
    afterClose := by
      intro handled events heq
      obtain ⟨hhandled, hlate⟩ := h.afterClose_of_busy hbusy _ handled events heq
      refine ⟨?_, hlate⟩
      rw [← hhandled, SocketRun.handled, filter_append, map_append]
      exact append_nil _ }

theorem reply (hawaiting : r.socket.phase = .awaiting) (reply : RuntimeReply φ) :
    Orderly stringify texts { r with
      socket := { r.socket with phase := LoopbackSocket.replyPhase reply }
      replies := r.replies ++ [reply] } := by
  have hbusy : r.socket.phase ≠ .idle := by
    rw [hawaiting]
    exact nofun
  have hlength := (h.oneAtATime.resolve_right fun hn => hn.1 hawaiting).2
  have hturns : r.turns.map Prod.snd =
      none :: r.replies.map (RuntimeReply.untold stringify texts) := by
    apply h.lost.eq_of_length
    rw [length_map, length_cons, length_map, hlength]
  exact { h with
    inTurn := ⟨[], h.nothing_skipped (.inr hbusy), fun _ => rfl⟩
    oneAtATime := by
      refine .inr ⟨by cases reply <;> exact nofun, ?_⟩
      rw [length_append]
      exact hlength
    lost := by
      rw [map_append, ← cons_append, ← hturns]
      exact prefix_append _ _
    due := by
      intro _ _
      rw [map_append, ← cons_append, ← hturns]
      rfl
    inOrder := by
      refine ⟨[], ?_, .inl rfl⟩
      rw [flatMap_append, ← h.nothing_dropped (.inr hbusy), hawaiting]
      simp [DispatchPhase.events, RuntimeReply.events, answered]
    untouched := fun hq => absurd (h.untouched hq).1 hbusy
    afterClose := h.afterClose_of_busy hbusy _ }

/-- The chain of promises goes on without an event: what is left of an answer stays, or is dropped
by the close. -/
theorem quiet (hbusy : r.socket.phase ≠ .idle) (hnotAwaiting : r.socket.phase ≠ .awaiting)
    {phase : DispatchPhase φ} (hphase : phase ≠ .awaiting) {dropped : List (SocketEvent τ)}
    (hevents : phase.events stringify texts ++ dropped = r.socket.phase.events stringify texts)
    (hwhen : (dropped = [] ∧
        phase.untold stringify texts = r.socket.phase.untold stringify texts) ∨
      (r.socket.readyState ≠ .socketOpen ∧ phase = .idle)) :
    (r.emit ({ r.socket with phase }, [])).Orderly stringify texts := by
  rw [SocketRun.emit, append_nil]
  exact { h with
    inTurn := ⟨[], h.nothing_skipped (.inr hbusy), fun _ => rfl⟩
    oneAtATime := .inr ⟨hphase, (h.oneAtATime.resolve_left fun ha => hnotAwaiting ha.1).2⟩
    due := by
      intro hstill _
      obtain ⟨-, huntold⟩ | ⟨hclosed, rfl⟩ := hwhen
      · rw [← h.due (.inr hbusy) hnotAwaiting, huntold]
      · exact absurd rfl (hstill.resolve_left hclosed)
    inOrder := by
      refine ⟨dropped, ?_, hwhen.imp_left And.left⟩
      rw [← h.nothing_dropped (.inr hbusy), append_assoc, hevents]
      rfl
    untouched := fun hq => absurd (h.untouched hq).1 hbusy
    afterClose := h.afterClose_of_busy hbusy phase }

/-- The chain of promises goes on with an event of the answer: a message, or an error behind which
nothing of the answer is left. -/
theorem loud (hbusy : r.socket.phase ≠ .idle) (hnotAwaiting : r.socket.phase ≠ .awaiting)
    {phase : DispatchPhase φ} (hphase : phase ≠ .awaiting) {event : SocketEvent τ}
    (hevents : event :: phase.events stringify texts = r.socket.phase.events stringify texts)
    (huntold : phase.untold stringify texts = r.socket.phase.untold stringify texts)
    (htype : (event.type = .message ∧ r.socket.readyState = .socketOpen) ∨
      (event.type = .error ∧ phase = .idle)) :
    (r.emit ({ r.socket with phase }, [event])).Orderly stringify texts := by
  have hanswer : event.type = .message ∨ event.type = .error := htype.imp And.left And.left
  have hopened : event.type ≠ .opened := by
    rcases hanswer with htype | htype <;> rw [htype] <;> exact nofun
  have hclose : event.type ≠ .close := by
    rcases hanswer with htype | htype <;> rw [htype] <;> exact nofun
  exact { h with
    inTurn := ⟨[], h.nothing_skipped (.inr hbusy), fun _ => rfl⟩
    oneAtATime := .inr ⟨hphase, (h.oneAtATime.resolve_left fun ha => hnotAwaiting ha.1).2⟩
    due := by
      intro _ _
      rw [SocketRun.emit, ← h.due (.inr hbusy) hnotAwaiting, huntold]
    inOrder := by
      refine ⟨[], ?_, .inl rfl⟩
      rw [answered_emit, SocketRun.emit, ← h.nothing_dropped (.inr hbusy), ← hevents]
      simp [hanswer]
    opening := h.opening_concat hopened
    untouched := fun hq => absurd (h.untouched hq).1 hbusy
    closed := h.closed_concat hclose
    afterClose := by
      intro handled events heq
      obtain ⟨-, hopen⟩ | ⟨herror, rfl⟩ := htype
      · exact absurd heq (h.atClose_ne hopen _)
      · have hmessage : event.type ≠ .message := by
          rw [herror]
          exact nofun
        obtain ⟨hhandled, late, n, hlater, hlate, hcount, -, hzero⟩ :=
          h.afterClose_concat event hmessage hopened heq
        rw [hzero hbusy, herror] at hcount
        exact ⟨hhandled, late, hlater, hlate, hcount.le, fun hidle => absurd rfl hidle⟩ }

theorem catchError {error : RpcError} (hfailed : r.socket.phase = .failed error) :
    (r.emit (r.socket.catchError texts error)).Orderly stringify texts := by
  have hbusy : r.socket.phase ≠ .idle := by
    rw [hfailed]
    exact nofun
  have hnotAwaiting : r.socket.phase ≠ .awaiting := by
    rw [hfailed]
    exact nofun
  rw [LoopbackSocket.catchError]
  split
  next htold =>
    refine h.loud hbusy hnotAwaiting ?_ ?_ ?_ (.inr ⟨rfl, rfl⟩)
    · exact nofun
    · rw [hfailed]
      simp [DispatchPhase.events, RpcError.told, htold]
    · rw [hfailed]
      exact htold.symm
  next thrown huntold =>
    refine h.quiet hbusy hnotAwaiting nofun ?_ (.inl ⟨rfl, ?_⟩)
    · rw [hfailed]
      simp [DispatchPhase.events, RpcError.told, huntold]
    · rw [hfailed]
      exact huntold.symm

theorem emitFrame {frames : List φ} (hemitting : r.socket.phase = .emitting frames) :
    (r.emit (r.socket.emitFrame stringify frames)).Orderly stringify texts := by
  have hbusy : r.socket.phase ≠ .idle := by
    rw [hemitting]
    exact nofun
  have hnotAwaiting : r.socket.phase ≠ .awaiting := by
    rw [hemitting]
    exact nofun
  cases frames with
  | nil =>
    refine h.quiet hbusy hnotAwaiting nofun ?_ (.inl ⟨rfl, ?_⟩)
    · rw [hemitting]
      rfl
    · rw [hemitting]
      rfl
  | cons frame frames =>
    rw [LoopbackSocket.emitFrame]
    split_ifs with hopen
    · split
      next data htext =>
        refine h.loud hbusy hnotAwaiting ?_ ?_ ?_ (.inl ⟨rfl, hopen⟩)
        · exact nofun
        · rw [hemitting]
          simp [DispatchPhase.events, frameEvents, htext]
        · rw [hemitting]
          simp [DispatchPhase.untold, frameUntold, htext]
      next error herror =>
        refine h.quiet hbusy hnotAwaiting nofun ?_ (.inl ⟨rfl, ?_⟩)
        · rw [hemitting]
          simp [DispatchPhase.events, frameEvents, herror]
        · rw [hemitting]
          simp [DispatchPhase.untold, frameUntold, herror]
    · -- the frames that are left are dropped
      exact h.quiet hbusy hnotAwaiting nofun (nil_append _) (.inr ⟨hopen, rfl⟩)

/-- Every call keeps the order. -/
theorem step (call : SocketCall δ φ) : (r.step stringify texts call).Orderly stringify texts := by
  cases call with
  | send data => exact h.send data
  | close code reason => exact h.close code reason
  | openTask =>
    rw [SocketRun.step]
    split_ifs with hqueued
    · exact h.openTask hqueued
    · exact h
  | closeTask =>
    rw [SocketRun.step]
    split
    · exact h
    next hqueued hclose hphase => exact h.closeTask hqueued hclose
    · exact h
  | dispatch =>
    rw [SocketRun.step]
    split
    next hqueued hidle hqueue => exact h.dispatch hqueued hidle hqueue
    next hqueued hrejected hqueue => exact h.skip hrejected hqueue
    · exact h
  | reply reply =>
    rw [SocketRun.step]
    split
    next hawaiting => exact h.reply hawaiting reply
    · exact h
  | emitFrame =>
    rw [SocketRun.step]
    split
    next hemitting => exact h.emitFrame hemitting
    · exact h
  | catchError =>
    rw [SocketRun.step]
    split
    next hfailed => exact h.catchError hfailed
    · exact h

end Orderly

end SocketRun

end WasmHost

import WasmHost.Web.HttpWorker

/-!
# One answer for each bridged request

In a run whose steps are orderly every dispatched request is answered once, and nothing with its id
follows the answer. What carries the induction is `HttpBridge.Held`: the record of a running request
says whether an error was reported for it, and its conversation is open exactly as long as neither
that has happened nor the transport has finished.
-/

namespace WasmHost

open OrdMap Conversation

variable {ι : Type}

/-- The conversation of a request has ended with one answer. -/
def HttpPost.Answered (ms : List (HttpPost ι)) : Prop :=
  ∃ answer : HttpPost ι, answer.Terminal ∧ ClosedBy Terminal [answer] ms

/-- What the conversation of a request may be: it has one answer as soon as the transport has
settled, at most one before, and nothing behind it. -/
def HttpPost.Fits (ms : List (HttpPost ι)) : CallPhase → Prop
  | .idle => True
  | .settled => HttpPost.Answered ms
  | _ => Open HttpPost.Terminal ms ∨ HttpPost.Answered ms

namespace HttpBridge

section

variable [DecidableEq ι]

/-- The messages with an id. -/
def conversation (id : ι) (b : HttpBridge ι) : List (HttpPost ι) :=
  of HttpPost.id id b.worker.posts

/-- Every request that was dispatched has its one answer when its transport has settled, and none
has a second answer or a message behind its answer. -/
def OneAnswer (b : HttpBridge ι) : Prop :=
  ∀ id, HttpPost.Fits (b.conversation id) (b.calls id)

/-! ### Orderly steps -/

/-- The worker has reported an error of the body of a request that is in flight. -/
def Reported (id : ι) (b : HttpBridge ι) : Prop :=
  (b.worker.inFlight.get id).any InFlight.reportedError = true

/-- The messages posted so far decide it. -/
instance (id : ι) (b : HttpBridge ι) : Decidable (b.Reported id) :=
  inferInstanceAs (Decidable (_ = _))

/-- A message about a body is one the worker can use, or the first refusal for a request that has no
answer yet, or it belongs to no request at all. -/
def BodyOrderly (id : ι) (f : ByteStream BridgeError → Except BridgeError (ByteStream BridgeError))
    (b : HttpBridge ι) : Prop :=
  match b.worker.recordForBodyMessage? id with
  | none => b.calls id = .idle
  | some (_, stream) => (f stream).isOk = true ∨ b.calls id = .running ∧ ¬ b.Reported id

/-- A transport writes until it has finished and only while no error was reported. It settles behind
its `finish`, or with an error that can be told in place of it, or when an error was reported. -/
def TransportOrderly (options : HttpWorkerOptions) (id : ι) (b : HttpBridge ι) :
    TransportStep → Prop
  | .read => True
  | .writeBodyChunk chunk =>
    b.calls id = .running ∧ ¬ b.Reported id ∨ (toUint8Array chunk).isOk = false
  | .finish status headers body =>
    b.calls id = .running ∧ ¬ b.Reported id ∨
      (b.worker.finish options id status headers body).2 = false
  | .resolve => b.calls id = .finished ∨ b.calls id = .running ∧ b.Reported id
  | .reject thrown =>
    b.calls id = .running ∧ (b.Reported id ∨ (normalizeBridgeError thrown).isSome = true)

/-- The steps that give no request a second answer, and none a message behind its answer. -/
def Orderly (options : HttpWorkerOptions) (b : HttpBridge ι) : HttpEvent ι → Prop
  | .dispatch message => b.conversation message.id = []
  | .cancel _ => True
  | .body id message => b.BodyOrderly id (pushChunk message)
  | .bodyEnd id => b.BodyOrderly id (ByteStream.finish streamAlreadyClosed)
  | .bodyError id error => b.BodyOrderly id fun _ => .error (errorFromBodyStreamMessage error)
  | .transport id step => b.TransportOrderly options id step

end

/-! ### What the records say about the conversations -/

/-- Phase, record and conversation of a request fit together. -/
inductive Held : CallPhase → Option InFlight → List (HttpPost ι) → Prop
  | idle (ms : List (HttpPost ι)) : Held .idle none ms
  | silent {record : InFlight} {ms : List (HttpPost ι)} (hrecord : record.reportedError = false)
      (hms : Open HttpPost.Terminal ms) : Held .running (some record) ms
  | reported {record : InFlight} {ms : List (HttpPost ι)} (hrecord : record.reportedError = true)
      (hms : HttpPost.Answered ms) : Held .running (some record) ms
  | finished {record : InFlight} {ms : List (HttpPost ι)} (hrecord : record.reportedError = false)
      (hms : HttpPost.Answered ms) : Held .finished (some record) ms
  | settled {ms : List (HttpPost ι)} (hms : HttpPost.Answered ms) : Held .settled none ms

variable {record : Option InFlight} {options : HttpWorkerOptions} {phase : CallPhase}
    {record' : InFlight}

theorem Held.of_idle {ms : List (HttpPost ι)} (h : Held .idle record ms) : record = none := by
  cases h
  rfl

theorem Held.of_running {ms : List (HttpPost ι)} (h : Held .running record ms) :
    ∃ r, record = some r ∧ (r.reportedError = false ∧ Open HttpPost.Terminal ms ∨
      r.reportedError = true ∧ HttpPost.Answered ms) := by
  cases h with
  | silent hr hms => exact ⟨_, rfl, .inl ⟨hr, hms⟩⟩
  | reported hr hms => exact ⟨_, rfl, .inr ⟨hr, hms⟩⟩

theorem Held.of_finished {ms : List (HttpPost ι)} (h : Held .finished record ms) :
    HttpPost.Answered ms := by
  cases h with
  | finished _ hms => exact hms

theorem Held.fits {ms : List (HttpPost ι)} (h : Held phase record ms) : HttpPost.Fits ms phase := by
  cases h with
  | idle => trivial
  | silent _ hms => exact .inl hms
  | reported _ hms | finished _ hms => exact .inr hms
  | settled hms => exact hms

/-- A record that is replaced by one with the same report. -/
theorem Held.replace {record : InFlight} {ms : List (HttpPost ι)} (h : Held phase (some record) ms)
    (hrecord : record'.reportedError = record.reportedError) : Held phase (some record') ms := by
  cases h with
  | silent hr hms => exact .silent (hrecord.trans hr) hms
  | reported hr hms => exact .reported (hrecord.trans hr) hms
  | finished hr hms => exact .finished (hrecord.trans hr) hms

theorem answered_snoc {ms : List (HttpPost ι)} (h : Open HttpPost.Terminal ms)
    {answer : HttpPost ι} (hanswer : answer.Terminal) : HttpPost.Answered (ms ++ [answer]) :=
  ⟨answer, hanswer, h.close [answer]⟩

/-- A conversation does not go on behind an answer. -/
theorem not_answered_cons {m : HttpPost ι} (hm : m.Terminal) {ms : List (HttpPost ι)}
    (hms : ms ≠ []) : ¬ HttpPost.Answered (m :: ms) := by
  rintro ⟨answer, -, hclosed⟩
  refine hclosed.open_take m ?_ hm
  obtain ⟨n, rest, rfl⟩ := List.exists_cons_of_ne_nil hms
  simp

variable [DecidableEq ι]

/-- Every request is held as its phase says. -/
def AllHeld (b : HttpBridge ι) : Prop :=
  ∀ id, Held (b.calls id) (b.worker.inFlight.get id) (b.conversation id)

theorem AllHeld.oneAnswer {b : HttpBridge ι} (h : b.AllHeld) : b.OneAnswer :=
  fun id => (h id).fits

/-- A running request: its record tells whether it has its answer. -/
theorem AllHeld.of_running {id : ι} {b : HttpBridge ι} (h : b.AllHeld)
    (hrunning : b.calls id = .running) :
    b.Reported id ∧ HttpPost.Answered (b.conversation id) ∨
      ¬ b.Reported id ∧ Open HttpPost.Terminal (b.conversation id) := by
  obtain ⟨r, hget, ⟨hr, hms⟩ | ⟨hr, hms⟩⟩ := Held.of_running (hrunning ▸ h id)
  · exact .inr ⟨by simp [Reported, hget, hr], hms⟩
  · exact .inl ⟨by simp [Reported, hget, hr], hms⟩

/-- `b'` differs from `b` in what one request has. -/
structure OnlyAt (id : ι) (b b' : HttpBridge ι) : Prop where
  calls : ∀ j ≠ id, b'.calls j = b.calls j
  inFlight : ∀ j ≠ id, b'.worker.inFlight.get j = b.worker.inFlight.get j
  conversation : ∀ j ≠ id, b'.conversation j = b.conversation j

theorem AllHeld.of_onlyAt {id : ι} {b b' : HttpBridge ι} (h : b.AllHeld) (hb : OnlyAt id b b')
    (hid : Held (b'.calls id) (b'.worker.inFlight.get id) (b'.conversation id)) : b'.AllHeld := by
  intro j
  by_cases hj : j = id
  · exact hj ▸ hid
  · rw [hb.calls j hj, hb.inFlight j hj, hb.conversation j hj]
    exact h j

/-- What a step that gives a request a phase, a record and messages may change. -/
theorem onlyAt_of_posts {id : ι} {b b' : HttpBridge ι} {ms : List (HttpPost ι)}
    (hcalls : ∀ j ≠ id, b'.calls j = b.calls j)
    (hinFlight : ∀ j ≠ id, b'.worker.inFlight.get j = b.worker.inFlight.get j)
    (hposts : b'.worker.posts = b.worker.posts ++ ms) (hms : ∀ m ∈ ms, m.id = id) :
    OnlyAt id b b' where
  calls := hcalls
  inFlight := hinFlight
  conversation j hj := by
    have hnone : of HttpPost.id j ms = [] :=
      of_of_forall_ne _ fun m hm => by rw [hms m hm]; exact Ne.symm hj
    rw [HttpBridge.conversation, hposts, of_append, hnone, List.append_nil]
    rfl

theorem conversation_of_posts {id : ι} {b b' : HttpBridge ι} {ms : List (HttpPost ι)}
    (hposts : b'.worker.posts = b.worker.posts ++ ms) (hms : ∀ m ∈ ms, m.id = id) :
    b'.conversation id = b.conversation id ++ ms := by
  rw [conversation, hposts, of_append, of_of_forall _ hms]
  rfl

/-- A step at one request keeps all of them held if it keeps that one held. -/
theorem AllHeld.step_at {b b' : HttpBridge ι} (h : b.AllHeld) (id : ι) (ms : List (HttpPost ι))
    (hcalls : ∀ j ≠ id, b'.calls j = b.calls j)
    (hinFlight : ∀ j ≠ id, b'.worker.inFlight.get j = b.worker.inFlight.get j)
    (hposts : b'.worker.posts = b.worker.posts ++ ms) (hms : ∀ m ∈ ms, m.id = id)
    (hid : Held (b'.calls id) (b'.worker.inFlight.get id) (b.conversation id ++ ms)) :
    b'.AllHeld := by
  refine h.of_onlyAt (onlyAt_of_posts hcalls hinFlight hposts hms) ?_
  rwa [conversation_of_posts hposts hms]

/-! ### The steps -/

theorem AllHeld.replace {id : ι} {b : HttpBridge ι} {record : InFlight} (h : b.AllHeld)
    (hget : b.worker.inFlight.get id = some record)
    (hrecord : record'.reportedError = record.reportedError) :
    AllHeld { b with worker.inFlight := b.worker.inFlight.set id record' } := by
  have hid := h id
  rw [hget] at hid
  refine h.step_at id [] (fun _ _ => rfl) (fun j hj => get_set_ne _ _ hj)
    (List.append_nil _).symm (by simp) ?_
  simpa using hid.replace hrecord

theorem recordForBodyMessage?_eq_some {id : ι} {w : HttpWorker ι} {record : InFlight}
    {stream : ByteStream BridgeError} (h : w.recordForBodyMessage? id = some (record, stream)) :
    w.inFlight.get id = some record := by
  simp only [HttpWorker.recordForBodyMessage?, Option.bind_eq_bind, Option.bind_eq_some_iff] at h
  obtain ⟨r, hr, s, -, hrs⟩ := h
  cases hrs
  exact hr

theorem AllHeld.onBody {id : ι} {b : HttpBridge ι} (h : b.AllHeld)
    {f : ByteStream BridgeError → Except BridgeError (ByteStream BridgeError)}
    (hok : b.BodyOrderly id f) : AllHeld { b with worker := b.worker.onBody id f } := by
  unfold HttpWorker.onBody
  unfold BodyOrderly at hok
  split
  next hnone =>
    -- the id is one that nobody has dispatched
    rw [hnone] at hok
    have hidle : b.calls id = .idle := hok
    have hrecord : b.worker.inFlight.get id = none := Held.of_idle (hidle ▸ h id)
    refine h.step_at id [.error id HttpWorker.unknownBody] (fun _ _ => rfl)
      (fun _ _ => rfl) rfl (by simp [HttpPost.id]) ?_
    show Held (b.calls id) (b.worker.inFlight.get id) _
    rw [hidle, hrecord]
    exact .idle _
  next record stream hsome =>
    have hget := recordForBodyMessage?_eq_some hsome
    rw [hsome] at hok
    split
    · exact h.replace hget rfl
    next error herror =>
      -- the first refusal answers the request
      obtain ⟨hrunning, hreported⟩ : b.calls id = .running ∧ ¬ b.Reported id := by
        refine hok.resolve_left ?_
        rw [herror]
        simp [Except.isOk, Except.toBool]
      obtain ⟨-, hopen⟩ := (h.of_running hrunning).resolve_left fun hanswer => hreported hanswer.1
      refine h.step_at id [.error id error] (fun _ _ => rfl)
        (fun j hj => get_set_ne _ _ hj) rfl (by simp [HttpPost.id]) ?_
      show Held (b.calls id) ((b.worker.inFlight.set id _).get id) _
      rw [hrunning, get_set_self]
      exact .reported rfl (answered_snoc hopen trivial)

theorem AllHeld.cancel {b : HttpBridge ι} (h : b.AllHeld) (id : ι) :
    AllHeld { b with worker := b.worker.cancel id } := by
  unfold HttpWorker.cancel
  split
  · exact h
  next record hget => exact h.replace hget rfl

theorem AllHeld.dispatch {b : HttpBridge ι} (h : b.AllHeld) {message : DispatchMessage ι}
    (hok : b.Orderly options (.dispatch message)) :
    (b.step options (.dispatch message)).AllHeld := by
  have hempty : b.conversation message.id = [] := hok
  have hcalls (phase : CallPhase) : ∀ j ≠ message.id,
      Function.update b.calls message.id phase j = b.calls j :=
    fun j hj => Function.update_of_ne hj _ _
  show AllHeld (if b.calls message.id = .idle then _ else b)
  split_ifs with hidle
  case neg => exact h
  have hrecord : b.worker.inFlight.get message.id = none := Held.of_idle (hidle ▸ h message.id)
  have hfailed (error : BridgeError) : AllHeld (setCall message.id .settled
      { b with worker := b.worker.postMessage (.error message.id error) }) := by
    refine h.step_at message.id [.error message.id error] (hcalls _) (fun _ _ => rfl) rfl
      (by simp [HttpPost.id]) ?_
    show Held (Function.update b.calls message.id _ message.id) (b.worker.inFlight.get _) _
    rw [Function.update_self, hrecord, hempty]
    exact .settled (answered_snoc open_nil trivial)
  unfold HttpWorker.dispatch
  cases options.resolveTransport message.transport with
  | error error => exact hfailed error
  | ok =>
    cases options.requestFromDispatchMessage message with
    | error error => exact hfailed error
    | ok =>
      refine h.step_at message.id [] (hcalls _) (fun j hj => get_set_ne _ _ hj)
        (List.append_nil _).symm (by simp) ?_
      show Held (Function.update b.calls message.id _ message.id)
        ((b.worker.inFlight.set message.id _).get message.id) _
      rw [Function.update_self, get_set_self, hempty]
      exact .silent rfl open_nil

/-- What an unfinished request without a report has: a record, and no answer. -/
theorem AllHeld.silent {id : ι} {b : HttpBridge ι} (h : b.AllHeld)
    (hrunning : b.calls id = .running)
    (hreported : ¬ b.Reported id) : ∃ record, b.worker.inFlight.get id = some record ∧
      record.reportedError = false ∧ Open HttpPost.Terminal (b.conversation id) := by
  obtain ⟨r, hget, hr | hr⟩ := Held.of_running (hrunning ▸ h id)
  · exact ⟨r, hget, hr⟩
  · exact absurd (by simp [Reported, hget, hr.1]) hreported

theorem AllHeld.settle {id : ι} {b : HttpBridge ι} (h : b.AllHeld) (thrown : Option Thrown)
    (ms : List (HttpPost ι)) (hms : ∀ m ∈ ms, m.id = id)
    (hposts : (b.worker.settle id thrown).posts = b.worker.posts ++ ms)
    (hanswered : HttpPost.Answered (b.conversation id ++ ms)) :
    AllHeld (setCall id .settled { b with worker := b.worker.settle id thrown }) := by
  refine h.step_at id ms (fun j hj => Function.update_of_ne hj _ _)
    (fun j hj => get_delete_ne _ hj) hposts hms ?_
  show Held (Function.update b.calls id _ id) ((b.worker.inFlight.delete id).get id) _
  rw [Function.update_self, get_delete_self]
  exact .settled hanswered

theorem AllHeld.transportStep {id : ι} {b : HttpBridge ι} (h : b.AllHeld) {step : TransportStep}
    (hok : b.TransportOrderly options id step) : (b.transportStep options id step).AllHeld := by
  cases step with
  | read =>
    simp only [HttpBridge.transportStep]
    split
    · exact h
    next record stream hsome => exact h.replace (recordForBodyMessage?_eq_some hsome) rfl
  | writeBodyChunk =>
    simp only [HttpBridge.transportStep, HttpWorker.writeBodyChunk]
    split
    next bytes hbytes =>
      obtain ⟨hrunning, hreported⟩ :=
        hok.resolve_right (by simp [hbytes, Except.isOk, Except.toBool])
      obtain ⟨record, hget, hr, hopen⟩ := h.silent hrunning hreported
      refine h.step_at id [.body id bytes] (fun _ _ => rfl) (fun _ _ => rfl) rfl
        (by simp [HttpPost.id]) ?_
      show Held (b.calls id) (b.worker.inFlight.get id) _
      rw [hrunning, hget]
      refine .silent hr (hopen.snoc ?_)
      rintro ⟨⟩
    · exact h
  | finish status headers body =>
    by_cases hposted : (b.worker.finish options id status headers body).2 = false
    · -- what it was given is thrown back at the transport
      have hworker : b.worker.finish options id status headers body = (b.worker, false) := by
        unfold HttpWorker.finish at hposted ⊢
        split at hposted <;> simp_all
      simp only [HttpBridge.transportStep, hworker]
      exact h
    · obtain ⟨hrunning, hreported⟩ := hok.resolve_right hposted
      obtain ⟨record, hget, hr, hopen⟩ := h.silent hrunning hreported
      obtain ⟨headers', bytes, hworker⟩ : ∃ headers' bytes,
          b.worker.finish options id status headers body =
            (b.worker.postMessage (.complete id status headers' bytes), true) := by
        unfold HttpWorker.finish at hposted ⊢
        split at hposted
        next headers' bytes _ _ => exact ⟨headers', bytes, rfl⟩
        · exact absurd rfl hposted
      simp only [HttpBridge.transportStep, hworker, hrunning]
      refine h.step_at id [.complete id status headers' bytes]
        (fun j hj => Function.update_of_ne hj _ _) (fun _ _ => rfl) rfl (by simp [HttpPost.id]) ?_
      show Held (Function.update b.calls id _ id) (b.worker.inFlight.get id) _
      rw [Function.update_self, hget]
      exact .finished hr (answered_snoc hopen trivial)
  | resolve =>
    show AllHeld (if b.calls id = .settled then b else _)
    split_ifs with hsettled
    · exact h
    refine h.settle none [] (by simp) (by simp [HttpWorker.settle]) ?_
    rw [List.append_nil]
    rcases hok with hfinished | ⟨hrunning, hreported⟩
    · exact Held.of_finished (hfinished ▸ h id)
    · exact ((h.of_running hrunning).resolve_right fun hopen => hopen.1 hreported).2
  | reject thrown =>
    obtain ⟨hrunning, htold⟩ := hok
    show AllHeld (if b.calls id = .settled then b else _)
    rw [if_neg (by simp [hrunning])]
    by_cases hreported : b.Reported id
    · -- the error was reported before
      refine h.settle (some thrown) [] (by simp) ?_ ?_
      · simp [HttpWorker.settle, show (b.worker.inFlight.get id).any _ = true from hreported]
      · rw [List.append_nil]
        exact ((h.of_running hrunning).resolve_right fun hopen => hopen.1 hreported).2
    · obtain ⟨record, hget, hr, hopen⟩ := h.silent hrunning hreported
      obtain ⟨error, herror⟩ := Option.isSome_iff_exists.1 (htold.resolve_left hreported)
      refine h.settle (some thrown) [.error id error] (by simp [HttpPost.id]) ?_
        (answered_snoc hopen trivial)
      simp [HttpWorker.settle, hget, hr, herror]

theorem AllHeld.step {b : HttpBridge ι} {e : HttpEvent ι} (h : b.AllHeld)
    (hok : b.Orderly options e) : (b.step options e).AllHeld := by
  cases e with
  | dispatch => exact h.dispatch hok
  | cancel id => exact h.cancel id
  | body | bodyEnd | bodyError => exact h.onBody hok
  | transport id step =>
    show AllHeld (if b.calls id = .idle then b else _)
    split_ifs
    · exact h
    · exact h.transportStep hok

theorem allHeld_start : (start : HttpBridge ι).AllHeld := fun _ => .idle _

/-- Orderly steps answer every request once. -/
theorem answersOnce_of_orderly (options : HttpWorkerOptions) (es : List (HttpEvent ι))
    (h : Along (step options) (Orderly options) start es) :
    Always (step options) OneAnswer start es :=
  have hheld : Always (step options) AllHeld start es :=
    Always.of_along (fun _ _ hb hok => AllHeld.step hb hok) allHeld_start h
  hheld.mono fun _ hb => hb.oneAnswer

/-! ### Two runs -/

/-- A worker with the one transport it has by default. -/
def directOptions : HttpWorkerOptions where
  transports := ["direct".toList]
  defaultTransport := "direct".toList
  toLowerCase := toAsciiLowercase

/-- A request with a streaming body and no headers. -/
def streamingDispatch (id : ℕ) : HttpEvent ℕ :=
  .dispatch ⟨id, none, true, ⟨.items [], none, none, none, none⟩⟩

/-- An upload that is read to its end before the response is written. -/
theorem answersOnce_of_orderly_upload :
    Always (step directOptions) OneAnswer (start : HttpBridge ℕ)
      [streamingDispatch 7, .body 7 ⟨some (.bytes [1, 2]), none⟩, .bodyEnd 7,
        .transport 7 .read, .transport 7 (.writeBodyChunk (.bytes [3])),
        .transport 7 (.finish 200 (.items []) none), .transport 7 .resolve] :=
  answersOnce_of_orderly directOptions _
    ⟨rfl, .inl rfl, .inl rfl, trivial, .inl ⟨rfl, by decide⟩, .inl ⟨rfl, by decide⟩, .inl rfl,
      trivial⟩

/-- The end of an upload that arrives behind the response. -/
theorem not_oneAnswer_lateEnd :
    ¬ Always (step directOptions) OneAnswer (start : HttpBridge ℕ)
      [streamingDispatch 7, .transport 7 (.finish 200 (.items []) none), .transport 7 .resolve,
        .bodyEnd 7] := by
  intro h
  have hsettled : HttpPost.Answered
      [.complete 7 200 [] [], .error 7 HttpWorker.unknownBody] := h.last 7
  exact not_answered_cons (m := .complete 7 200 [] []) trivial (by simp) hsettled

end HttpBridge

end WasmHost

import WasmHost.Http.StreamingCalls
import WasmHost.Lib.Except

/-!
# Where the two calls for a streaming request agree

While its caller waits, a call of either kind is described by one invariant (`Underway`), and the
two kinds can be taken through the same states. From this:

* every result of the blocking call is one of the asynchronous call (`canReturn_async`);
* every result of the asynchronous call is one of the blocking call, but for the error of a writer
  whose transport has released the request early (`canReturn_blocking`);
* so the calls agree exactly where that does not happen (`streamingCalls_agree_iff`).

For the converse a schedule is built that takes a call to any operation of its transport with the
producer as late as it can be (`reach_late`).
-/

namespace WasmHost

open List HttpRequestBodyWriter Exchange BodyProducer

/-! ### What the transport has done -/

section Conduct

variable (op : ℕ → TransportOp)

/-- How often the transport has read from the body before its operation `n`. -/
def readsBefore : ℕ → ℕ
  | 0 => 0
  | n + 1 =>
    match op n with
    | .read => readsBefore n + 1
    | _ => readsBefore n

/-- What the transport has answered before its operation `n`. -/
def answersBefore : ℕ → List HttpBridgeResponseEvent
  | 0 => []
  | n + 1 =>
    match op n with
    | .respond event => answersBefore n ++ [event]
    | _ => answersBefore n

end Conduct

/-- What a transport does with a request, operation by operation, reading from a body of so many
events no further than to its end. -/
structure Conduct (events : ℕ) where
  op : ℕ → TransportOp
  reads_le (n : ℕ) : readsBefore op n ≤ events

/-- The events of a body: its non-empty chunks and the end. -/
def bodyEvents (chunks : List Bytes) : ℕ := (chunks.filter (· ≠ [])).length + 1

@[simp]
theorem bodyEvents_nil_cons (chunks : List Bytes) :
    bodyEvents ([] :: chunks) = bodyEvents chunks := by
  simp [bodyEvents]

theorem bodyEvents_cons {chunk : Bytes} (h : chunk ≠ []) (chunks : List Bytes) :
    bodyEvents (chunk :: chunks) = bodyEvents chunks + 1 := by
  simp [bodyEvents, h]

/-- The events a producer has not handed over yet. -/
def BodyProducer.pending : BodyProducer → ℕ
  | .writing chunks _ _ => bodyEvents chunks
  | .finished _ => 0

theorem BodyProducer.pending_eq_zero_iff {p : BodyProducer} :
    p.pending = 0 ↔ p.isFinished = true := by
  cases p with
  | writing => simp [pending, isFinished, bodyEvents]
  | finished => simp [pending, isFinished]

/-! ### A step of the producer -/

namespace BodyProducer

variable {cancelled : Bool} {p q : BodyProducer} {x y : Exchange}

/-- What a step of a producer that is not cancelled can do. -/
inductive Produced (p : BodyProducer) (x : Exchange) : BodyProducer → Exchange → Prop
  | waited (q : BodyProducer) (h : q.pending = p.pending)
      (hresult : ∀ error, q = .finished error → p = .finished error) : Produced p x q x
  | sent (q : BodyProducer) (event : HttpRequestBodyEvent) (h : q.pending + 1 = p.pending)
      (hholder : x.holder ≠ .nobody) (hroom : x.body = [])
      (hresult : ∀ error, q = .finished (.error error) → False) :
      Produced p x q { x with body := [event] }
  | refused (q : BodyProducer) (h : p.isFinished = false) (hholder : x.holder = .nobody)
      (hresult : ∀ result, q = .finished result → result = .error bodyReceiverClosed) :
      Produced p x q x

theorem Produced.holder_eq (h : p.Produced x q y) : y.holder = x.holder := by
  cases h with
  | waited | sent | refused => rfl

/-- A producer changes nothing about a request that nobody holds. -/
theorem Produced.eq_of_nobody (h : p.Produced x q y) (hholder : x.holder = .nobody) : y = x := by
  cases h with
  | waited => rfl
  | sent event h hheld hroom hresult => exact absurd hholder hheld
  | refused => rfl

theorem produced_step (p : BodyProducer) (x : Exchange) :
    p.Produced x (p.step false x).1 (p.step false x).2 := by
  match p with
  | .finished result => exact .waited _ rfl fun _ h => h
  | .writing [] ending .cancelled => exact .waited _ rfl fun _ h => nomatch h
  | .writing [] ending .channel =>
    simp only [step, sendEvent]
    rcases trySendBody_cases (.complete ending) x with ⟨h, hholder⟩ | ⟨h, hholder, hbody⟩ | ⟨h, -⟩
    · rw [h]
      exact .refused _ rfl hholder fun result hresult => by cases hresult; rfl
    · rw [h]
      exact .sent _ _ rfl hholder hbody fun error hresult => by cases hresult
    · rw [h]
      exact .waited _ rfl fun _ h => nomatch h
  | .writing (chunk :: chunks) ending point =>
    by_cases hchunk : chunk = []
    · subst hchunk
      exact .waited _ (bodyEvents_nil_cons chunks).symm fun _ h => nomatch h
    match point with
    | .cancelled =>
      simp only [step, sendEvent, if_neg hchunk]
      exact .waited _ rfl fun _ h => nomatch h
    | .channel =>
      simp only [step, sendEvent, if_neg hchunk]
      rcases trySendBody_cases (.chunk chunk) x with ⟨h, hholder⟩ | ⟨h, hholder, hbody⟩ | ⟨h, -⟩
      · rw [h]
        exact .refused _ rfl hholder fun result hresult => nomatch hresult
      · rw [h]
        exact .sent _ _ (bodyEvents_cons hchunk chunks).symm hholder hbody
          fun error hresult => nomatch hresult
      · rw [h]
        exact .waited _ rfl fun _ h => nomatch h

/-- The steps a producer can still make once it is cancelled. -/
def stepsLeft : BodyProducer → ℕ
  | .writing chunks _ .cancelled => 2 * chunks.length + 1
  | .writing chunks _ .channel => 2 * chunks.length + 2
  | .finished _ => 0

theorem stepsLeft_step (h : p.isFinished = false) (x : Exchange) :
    (p.step true x).1.stepsLeft < p.stepsLeft := by
  match p with
  | .writing [] ending .cancelled => exact Nat.zero_lt_one
  | .writing [] ending .channel =>
    simp only [step, sendEvent]
    rcases trySendBody_cases (.complete ending) x with ⟨h, -⟩ | ⟨h, -⟩ | ⟨h, -⟩ <;>
      simp [h, stepsLeft]
  | .writing (chunk :: chunks) ending .cancelled =>
    by_cases hchunk : chunk = []
    · simp [step, hchunk, stepsLeft]
    · simp [step, hchunk, sendEvent, stepsLeft]
  | .writing (chunk :: chunks) ending .channel =>
    by_cases hchunk : chunk = []
    · simp only [step, hchunk, if_true, stepsLeft, length_cons]
      omega
    simp only [step, sendEvent, if_neg hchunk]
    rcases trySendBody_cases (.chunk chunk) x with ⟨h, -⟩ | ⟨h, -⟩ | ⟨h, -⟩ <;>
      simp only [h, stepsLeft, length_cons, length_nil] <;> omega

@[simp]
theorem caller_step (p : BodyProducer) : (p.step cancelled x).2.caller = x.caller := by
  unfold step
  split
  · rfl
  next ending point =>
    have hcaller := caller_sendEvent cancelled (.complete ending) x point
    split <;> simp_all
  next chunk chunks ending point =>
    split
    · rfl
    have hcaller := caller_sendEvent cancelled (.chunk chunk) x point
    split <;> simp_all

end BodyProducer

/-! ### A call that waits for its response -/

namespace StreamingCall

section Underway

variable (limits : HttpRequestLimits) (op : ℕ → TransportOp) (events : ℕ)

/-- What holds of a call, of either kind, while its caller waits. -/
structure Underway (s : StreamingCall) : Prop where
  result : s.result = none
  waiting : s.exchange.result? = none
  producing : s.producerCancelled = false
  placed : ∀ point, s.exchange.caller = .submit point → s.exchange.holder = .caller
  held : s.exchange.holder ≠ .nobody → ∀ m < s.turn, op m ≠ .release
  /-- What was read, what is queued and what is to come make up the body. -/
  counted : s.exchange.holder ≠ .nobody →
    readsBefore op s.turn + s.exchange.body.length + s.producer.pending = events
  released : s.exchange.holder = .nobody → ∃ n, s.turn = n + 1 ∧ op n = .release ∧
    (∀ m < n, op m ≠ .release) ∧ (s.producer.isFinished = false → readsBefore op n < events)
  queued : s.exchange.responses.length ≤ 1
  /-- The caller has received what was answered but for the queue. -/
  received : ∃ received, answersBefore op s.turn = received ++ s.exchange.responses ∧
    received.foldlM (receiveEvent limits.responseBodyBytes) [] = .ok s.exchange.responseBody
  refused : ∀ error, s.producer = .finished (.error error) →
    s.exchange.holder = .nobody ∧ error = bodyReceiverClosed

variable {limits : HttpRequestLimits} {op : ℕ → TransportOp} {events : ℕ} {s : StreamingCall}

theorem underway_start {request : HttpRequest} (hbody : request.body = []) (chunks : List Bytes)
    (ending : Except HttpBridgeError Unit) :
    Underway limits op (bodyEvents chunks) (start request chunks ending) where
  result := if_pos hbody
  waiting := rfl
  producing := rfl
  placed _ _ := rfl
  held _ m hm := absurd hm (Nat.not_lt_zero m)
  counted _ := by simp [start, Exchange.start, readsBefore, pending]
  released h := nomatch h
  queued := Nat.zero_le 1
  received := ⟨[], rfl, rfl⟩
  refused _ h := nomatch h

namespace Underway

/-- A step of the caller after which it still waits. -/
theorem pollRequest (hs : Underway limits op events s) (room : TrySend)
    (hwaiting : (s.pollRequest limits room).exchange.result? = none) :
    Underway limits op events (s.pollRequest limits room) := by
  unfold StreamingCall.pollRequest at hwaiting ⊢
  have hpolled := polled_poll limits s.cancelled s.expired room hs.waiting
  generalize s.exchange.poll limits s.cancelled s.expired room = y at hwaiting hpolled
  cases hpolled with
  | moved caller h hplaced =>
    exact { hs with
      waiting := hwaiting
      placed := fun point hcaller =>
        have ⟨point, hsubmit⟩ := hplaced point hcaller
        hs.placed point hsubmit }
  | accepted point h =>
    have hholder : s.exchange.holder ≠ .nobody := by simp [hs.placed point h]
    exact { hs with
      waiting := hwaiting
      placed := fun _ h => nomatch h
      held := fun _ => hs.held hholder
      counted := fun _ => hs.counted hholder
      released := fun h => nomatch h
      refused := fun error herror => absurd (hs.refused error herror).1 hholder }
  | received event rest body h hevent =>
    obtain ⟨received, hanswers, hreceived⟩ := hs.received
    exact { hs with
      waiting := hwaiting
      placed := fun _ h => nomatch h
      queued := by
        have := hs.queued
        rw [h, length_cons] at this
        change rest.length ≤ 1
        omega
      -- the received event goes from the queue to what was received
      received := ⟨received ++ [event], by rw [hanswers, h, append_assoc]; rfl, by
        simp [foldlM_append, hreceived, hevent, bind, Except.bind, pure, Except.pure]⟩ }
  | answered | failed => cases hwaiting

theorem produce (hs : Underway limits op events s) :
    Underway limits op events s.produceBlocking := by
  change Underway limits op events { s with
    producer := (s.producer.step s.producerCancelled s.exchange).1
    exchange := (s.producer.step s.producerCancelled s.exchange).2 }
  rw [hs.producing]
  have hproduced := s.producer.produced_step s.exchange
  generalize (s.producer.step false s.exchange).1 = q at hproduced ⊢
  generalize (s.producer.step false s.exchange).2 = y at hproduced ⊢
  cases hproduced with
  | waited h hresult =>
    have hfinished : q.isFinished = s.producer.isFinished := by
      rw [Bool.eq_iff_iff, ← pending_eq_zero_iff, ← pending_eq_zero_iff, h]
    exact { hs with
      producing := rfl
      counted := fun hholder => by simpa only [h] using hs.counted hholder
      released := fun hholder => by simpa only [hfinished] using hs.released hholder
      refused := fun error herror => hs.refused error (hresult _ herror) }
  | sent event h hholder hroom hresult =>
    exact { hs with
      producing := rfl
      waiting := hs.waiting
      placed := hs.placed
      counted := fun _ => by
        have := hs.counted hholder
        simp only [hroom, length_nil] at this
        simp only [length_singleton]
        omega
      released := fun h => absurd h hholder
      refused := fun error herror => (hresult error herror).elim }
  | refused h hholder hresult =>
    exact { hs with
      producing := rfl
      counted := fun hheld => absurd hholder hheld
      released := fun _ => by
        obtain ⟨n, hturn, hop, hheld, hread⟩ := hs.released hholder
        exact ⟨n, hturn, hop, hheld, fun _ => hread h⟩
      refused := fun error herror => ⟨hholder, Except.error.inj (hresult _ herror)⟩ }

/-- While the caller waits, a transport finds the body at its end only after the whole body, and so
never where the writer is gone. -/
theorem transport_eq (hs : Underway limits op events s) (hreads : ∀ n, readsBefore op n ≤ events)
    (gone : Bool) (hgone : gone = true → s.producer.isFinished = true) :
    s.exchange.transport gone (op s.turn) = s.exchange.transport false (op s.turn) := by
  cases gone with
  | false => rfl
  | true =>
    unfold transport
    split
    next hholder =>
      cases hop : op s.turn with
      | read =>
        cases hbody : s.exchange.body with
        | cons => rfl
        | nil =>
          have hcount := hs.counted (by simp [hholder])
          have hread := hreads (s.turn + 1)
          rw [hbody, pending_eq_zero_iff.2 (hgone rfl)] at hcount
          simp only [readsBefore, hop] at hread
          simp only [length_nil] at hcount
          omega
      | respond | release => rfl
    · rfl

theorem operate (hs : Underway limits op events s) (hreads : ∀ n, readsBefore op n ≤ events)
    (mode : CallMode) :
    s.operate op mode = s.operate op .async ∧ Underway limits op events (s.operate op mode) := by
  have hmode : s.exchange.transport (s.writerGone mode) (op s.turn) =
      s.exchange.transport false (op s.turn) := by
    apply hs.transport_eq hreads
    cases mode with
    | blocking => exact id
    | async => simp [writerGone]
  have heq : s.operate op mode = s.operate op .async := by
    unfold StreamingCall.operate
    rw [hmode]
    rfl
  refine ⟨heq, ?_⟩
  rw [heq]
  unfold StreamingCall.operate transport
  by_cases hholder : s.exchange.holder = .transport
  · have hheld := hs.held (by simp [hholder])
    have hcount := hs.counted (by simp [hholder])
    -- the operations before the next one
    have hnext : op s.turn ≠ .release → ∀ m < s.turn + 1, op m ≠ .release := by
      intro hop m hm
      rcases Nat.lt_succ_iff_lt_or_eq.1 hm with hm | rfl
      · exact hheld m hm
      · exact hop
    rw [if_pos hholder]
    cases hop : op s.turn with
    | read =>
      cases hbody : s.exchange.body with
      | nil => exact hs
      | cons =>
        exact { hs with
          held := fun _ => hnext (by simp [hop])
          counted := fun _ => by
            simp only [hbody, length_cons] at hcount
            simp only [readsBefore, hop]
            omega
          released := fun h => by simp [hholder] at h
          received := by simpa only [answersBefore, hop] using hs.received }
    | respond =>
      simp only [hs.waiting, Option.isSome_none, Bool.false_eq_true, if_false]
      by_cases hroom : s.exchange.responses.length < httpResponseEventQueueSize
      · rw [if_pos hroom]
        obtain ⟨received, hanswers, hreceived⟩ := hs.received
        exact { hs with
          held := fun _ => hnext (by simp [hop])
          counted := fun _ => by simpa only [readsBefore, hop] using hcount
          released := fun h => by simp [hholder] at h
          queued := by
            simp only [length_append, length_singleton, httpResponseEventQueueSize] at *
            omega
          received := ⟨received, by simp [answersBefore, hop, hanswers], hreceived⟩ }
      · rw [if_neg hroom]
        exact hs
    | release =>
      exact { hs with
        placed := fun point hcaller => by simp [hs.placed point hcaller] at hholder
        held := fun h => absurd rfl h
        counted := fun h => absurd rfl h
        released := fun _ => ⟨s.turn, rfl, hop, hheld, fun hunfinished => by
          have : s.producer.pending ≠ 0 := by
            rw [Ne, pending_eq_zero_iff, hunfinished]
            decide
          omega⟩
        received := by simpa only [answersBefore, hop] using hs.received
        refused := fun error herror => ⟨rfl, (hs.refused error herror).2⟩ }
  · rw [if_neg hholder]
    exact hs

end Underway

end Underway

/-! ### What a call can return -/

section Outcomes

variable (limits : HttpRequestLimits) (op : ℕ → TransportOp)

/-- Some schedule makes the call return this result. -/
def CanReturn (mode : CallMode) (request : HttpRequest) (chunks : List Bytes)
    (ending : Except HttpBridgeError Unit) (result : Except HttpBridgeError HttpResponse) : Prop :=
  ∃ s, Reach (step limits op mode) (start request chunks ending) s ∧ s.result = some result

variable {limits : HttpRequestLimits} {op : ℕ → TransportOp} {mode : CallMode} {s : StreamingCall}

theorem step_of_waiting (h : s.result = none) (event : CallEvent) :
    s.step limits op mode event = s.advance limits op mode event := by
  simp [step, h]

theorem reach_advance {t : StreamingCall} (hreach : Reach (step limits op mode) s t)
    (h : t.result = none) (event : CallEvent) :
    Reach (step limits op mode) s (t.advance limits op mode event) :=
  step_of_waiting h event ▸ hreach.next event trivial

@[simp]
theorem result?_produceBlocking (s : StreamingCall) :
    s.produceBlocking.exchange.result? = s.exchange.result? :=
  result?_congr (caller_step s.producer)

/-- A cancelled producer comes to its end. -/
theorem reach_finished (hresult : s.result = none) (hcancelled : s.producerCancelled = true) :
    ∃ t, Reach (step limits op .blocking) s t ∧ t.producer.isFinished = true ∧ t.result = none ∧
      t.producerCancelled = true ∧ t.exchange.result? = s.exchange.result? := by
  -- every step of it leaves fewer
  induction hleft : s.producer.stepsLeft using Nat.strong_induction_on generalizing s with
  | _ left ih =>
    cases hfinished : s.producer.isFinished with
    | true => exact ⟨s, .start, hfinished, hresult, hcancelled, rfl⟩
    | false =>
      have hstep : s.step limits op .blocking .produce = s.produceBlocking :=
        step_of_waiting hresult _
      have hless : s.produceBlocking.producer.stepsLeft < left := by
        subst hleft
        simp only [produceBlocking, hcancelled]
        exact stepsLeft_step hfinished _
      obtain ⟨t, hreach, ht, htresult, htcancelled, htcaller⟩ :=
        ih _ hless (s := s.produceBlocking) hresult hcancelled rfl
      refine ⟨t, ?_, ht, htresult, htcancelled, ?_⟩
      · exact Run.trans (hstep ▸ reach_step _ s CallEvent.produce) hreach
      · rw [htcaller, result?_produceBlocking]

/-- Where `request_blocking_inner` has returned, the join ends and the call returns the same. -/
theorem reach_joined {result : Except HttpBridgeError HttpResponse} (hresult : s.result = none)
    (hexchange : s.exchange.result? = some result) :
    ∃ t, Reach (step limits op .blocking) s t ∧ t.result = some result := by
  have hpoll (t : StreamingCall) (ht : t.result = none) :
      Reach (step limits op .blocking) t (t.pollBlocking limits .ok) := by
    have hstep := reach_step (step limits op .blocking) t (.poll .ok)
    rwa [step_of_waiting ht] at hstep
  -- the cancellation of the producer
  obtain ⟨t, hreach, ht, htcancelled, htexchange⟩ : ∃ t, Reach (step limits op .blocking) s t ∧
      t.result = none ∧ t.producerCancelled = true ∧ t.exchange.result? = some result := by
    cases hcancelled : s.producerCancelled with
    | true => exact ⟨s, .start, hresult, hcancelled, hexchange⟩
    | false =>
      refine ⟨_, hpoll s hresult, ?_⟩
      simp [pollBlocking, hexchange, hcancelled, hresult]
  obtain ⟨u, hreach', hfinished, hu, hucancelled, huexchange⟩ : ∃ u,
      Reach (step limits op .blocking) t u ∧ u.producer.isFinished = true ∧ u.result = none ∧
        u.producerCancelled = true ∧ u.exchange.result? = t.exchange.result? :=
    reach_finished ht htcancelled
  refine ⟨_, Run.trans hreach (Run.trans hreach' (hpoll u hu)), ?_⟩
  simp [pollBlocking, huexchange, htexchange, hucancelled, hfinished]

end Outcomes

/-! ### Every result of the blocking call is one of the asynchronous call -/

section Simulation

variable {limits : HttpRequestLimits} {op : ℕ → TransportOp} {events limit : ℕ} {s : StreamingCall}
    {result : Except HttpBridgeError HttpResponse}

theorem Underway.cancel (hs : Underway limits op events s) :
    Underway limits op events { s with cancelled := true } := { hs with }

theorem Underway.expire (hs : Underway limits op events s) :
    Underway limits op events { s with expired := true } := { hs with }

variable (mode : CallMode)

/-- The steps of the two calls while their callers wait. -/
theorem reach_pollRequest (hs : Underway limits op events s) (room : TrySend)
    (hwaiting : (s.pollRequest limits room).exchange.result? = none) :
    Reach (step limits op mode) s (s.pollRequest limits room) := by
  have hstep : Reach (step limits op mode) s (s.advance limits op mode (.poll room)) :=
    reach_advance .start hs.result _
  cases mode with
  | blocking => simpa only [advance, pollBlocking, hs.waiting] using hstep
  | async => simpa only [advance, pollAsync, hwaiting] using hstep

theorem reach_produceBlocking (hs : Underway limits op events s)
    (hok : ∀ error, s.produceBlocking.producer ≠ .finished (.error error)) :
    Reach (step limits op mode) s s.produceBlocking := by
  have hstep := reach_step (step limits op mode) s .produce
  rw [step_of_waiting hs.result] at hstep
  cases mode with
  | blocking => exact hstep
  | async =>
    -- the other arm of the match is ruled out by the hypothesis
    have heq : s.produceAsync = s.produceBlocking := by simp only [produceAsync]
    rwa [advance, heq] at hstep

theorem reach_operate (hs : Underway limits op events s) :
    Reach (step limits op mode) s (s.operate op mode) := by
  have hstep := reach_step (step limits op mode) s .transport
  rwa [step_of_waiting hs.result] at hstep

/-- A caller that still waits has not dropped the request. -/
theorem Underway.holder_pollRequest (hs : Underway limits op events s) (room : TrySend)
    (hwaiting : (s.pollRequest limits room).exchange.result? = none)
    (hholder : s.exchange.holder = .nobody) :
    (s.pollRequest limits room).exchange.holder = .nobody := by
  unfold StreamingCall.pollRequest at hwaiting ⊢
  have hpolled := polled_poll limits s.cancelled s.expired room hs.waiting
  generalize s.exchange.poll limits s.cancelled s.expired room = y at hwaiting hpolled
  cases hpolled with
  | moved => exact hholder
  | accepted point h => simp [hs.placed point h] at hholder
  | received => exact hholder
  | answered | failed => cases hwaiting

theorem Underway.produced (hs : Underway limits op events s) :
    s.producer.Produced s.exchange s.produceBlocking.producer s.produceBlocking.exchange := by
  unfold produceBlocking
  rw [hs.producing]
  exact s.producer.produced_step s.exchange

/-- Some schedule of the asynchronous call goes along with a blocking call that waits; once the
request is released its producer stands still. -/
def Followed (limits : HttpRequestLimits) (op : ℕ → TransportOp) (start s : StreamingCall) : Prop :=
  ∃ p, Reach (step limits op .async) start { s with producer := p } ∧
    (s.exchange.holder ≠ .nobody → p = s.producer)

section

variable {start : StreamingCall}

variable (hs : Underway limits op events s)
include hs

variable (hf : Followed limits op start s)
include hf

theorem Followed.poll (room : TrySend) :
    ((s.pollRequest limits room).exchange.result? = none ∧
      Followed limits op start (s.pollRequest limits room)) ∨
    ∃ result, (s.pollRequest limits room).exchange.result? = some result ∧
      ∃ t, Reach (step limits op .async) start t ∧ t.result = some result := by
  obtain ⟨p, hreach, hp⟩ := hf
  have hstep := reach_advance hreach hs.result (.poll room)
  have hpoll : ({ s with producer := p }.pollRequest limits room).exchange =
      (s.pollRequest limits room).exchange := rfl
  simp only [advance, pollAsync, hpoll] at hstep
  cases hresult : (s.pollRequest limits room).exchange.result? with
  | none =>
    rw [hresult] at hstep
    refine .inl ⟨rfl, p, hstep, fun hholder => hp fun hnobody => hholder ?_⟩
    exact hs.holder_pollRequest room hresult hnobody
  | some result =>
    rw [hresult] at hstep
    exact .inr ⟨result, rfl, _, hstep, rfl⟩

theorem Followed.produce :
    Followed limits op start s.produceBlocking := by
  obtain ⟨p, hreach, hp⟩ := hf
  by_cases hholder : s.exchange.holder = .nobody
  · -- the asynchronous call does without this step
    have hexchange := hs.produced.eq_of_nobody hholder
    refine ⟨p, ?_, fun h => absurd (hexchange ▸ hholder) h⟩
    convert hreach using 1
    simp only [produceBlocking] at hexchange ⊢
    rw [hexchange]
  · obtain rfl := hp hholder
    refine ⟨_, Run.trans hreach (reach_produceBlocking .async hs fun error herror => ?_),
      fun _ => rfl⟩
    exact hholder (hs.produced.holder_eq ▸ (hs.produce.refused error herror).1)

theorem Followed.operate :
    Followed limits op start (s.operate op .async) := by
  obtain ⟨p, hreach, hp⟩ := hf
  have hstep := reach_advance hreach hs.result .transport
  unfold advance StreamingCall.operate writerGone at hstep
  unfold StreamingCall.operate writerGone
  simp only at hstep ⊢
  cases hop : s.exchange.transport false (op s.turn) with
  | none =>
    rw [hop] at hstep
    exact ⟨p, hstep, hp⟩
  | some =>
    rw [hop] at hstep
    refine ⟨p, hstep, fun _ => hp fun hnobody => ?_⟩
    simp [transport, hnobody] at hop

theorem Followed.cancel :
    Followed limits op start { s with cancelled := true } := by
  obtain ⟨p, hreach, hp⟩ := hf
  have hstep := reach_advance hreach hs.result .cancel
  exact ⟨p, hstep, hp⟩

theorem Followed.expire (hlimits : limits.wallTime.isSome = true) :
    Followed limits op start { s with expired := true } := by
  obtain ⟨p, hreach, hp⟩ := hf
  have hstep := reach_advance hreach hs.result .expire
  simp only [advance, hlimits, if_true] at hstep
  exact ⟨p, hstep, hp⟩

end

/-- The transport lets go of a request whose body it has not read to the end, with no answer before
its last one that ends the call. -/
def ReleasesEarly (limits : HttpRequestLimits) (op : ℕ → TransportOp) (events : ℕ) : Prop :=
  ∃ n, op n = .release ∧ (∀ m < n, op m ≠ .release) ∧ readsBefore op n < events ∧
    ∃ body, (answersBefore op n).dropLast.foldlM (receiveEvent limits.responseBodyBytes) [] =
      .ok body

/-- The transport itself answers with the error of a writer that finds the receiver closed. -/
def AnswersLikeWriter (limits : HttpRequestLimits) (op : ℕ → TransportOp) : Prop :=
  ∃ n, (∀ m < n, op m ≠ .release) ∧
    (answersBefore op n).foldlM (receiveEvent limits.responseBodyBytes) [] =
      .error (.error bodyReceiverClosed)

theorem exists_foldlM_ok {xs ys : List HttpBridgeResponseEvent} {body body' : Bytes}
    (h : ys.foldlM (receiveEvent limit) body = .ok body') (hsub : xs <+: ys) :
    ∃ body', xs.foldlM (receiveEvent limit) body = .ok body' := by
  obtain ⟨zs, rfl⟩ := hsub
  rw [foldlM_append] at h
  obtain ⟨a, ha, -⟩ := Except.bind_eq_ok_iff.1 h
  exact ⟨a, ha⟩

/-- An answer that ends the call comes after answers that do not. -/
theorem exists_last_answer {op : ℕ → TransportOp} {n : ℕ}
    (h : (answersBefore op n).foldlM (receiveEvent limit) [] = .error result) :
    ∃ m < n, ∃ event, op m = .respond event ∧
      ∃ body, (answersBefore op m).foldlM (receiveEvent limit) [] = .ok body ∧
        receiveEvent limit body event = .error result := by
  induction n with
  | zero => cases h
  | succ n ih =>
    cases hn : op n with
    | read | release =>
      obtain ⟨m, hm, hlast⟩ := ih (by simpa only [answersBefore, hn] using h)
      exact ⟨m, Nat.lt_succ_of_lt hm, hlast⟩
    | respond event =>
      simp only [answersBefore, hn, foldlM_append] at h
      cases hfold : (answersBefore op n).foldlM (receiveEvent limit) [] with
      | error =>
        rw [hfold] at h
        cases h
        obtain ⟨m, hm, hlast⟩ := ih hfold
        exact ⟨m, Nat.lt_succ_of_lt hm, hlast⟩
      | ok body =>
        rw [hfold] at h
        refine ⟨n, Nat.lt_succ_self n, event, hn, body, hfold, ?_⟩
        change (receiveEvent limit body event).bind _ = _ at h
        cases hevent : receiveEvent limit body event with
        | error =>
          rw [hevent] at h
          exact h
        | ok =>
          rw [hevent] at h
          cases h

theorem dropLast_append_isPrefix {α : Type} {xs ys : List α} (h : ys.length ≤ 1) :
    (xs ++ ys).dropLast <+: xs := by
  match ys with
  | [] => simpa using dropLast_prefix xs
  | [y] => simp

/-- An answer in the queue that ends the call with the writer's error. -/
theorem Underway.answersLikeWriter (hs : Underway limits op events s)
    {event : HttpBridgeResponseEvent} {rest : List HttpBridgeResponseEvent}
    (h : s.exchange.responses = event :: rest)
    (hevent : receiveEvent limits.responseBodyBytes s.exchange.responseBody event =
      .error (.error bodyReceiverClosed)) : AnswersLikeWriter limits op := by
  obtain ⟨received, hanswers, hreceived⟩ := hs.received
  have hfold : (answersBefore op s.turn).foldlM (receiveEvent limits.responseBodyBytes) [] =
      .error (.error bodyReceiverClosed) := by
    rw [hanswers, h, foldlM_append, hreceived]
    change (receiveEvent limits.responseBodyBytes s.exchange.responseBody event).bind _ = _
    rw [hevent]
    rfl
  by_cases hholder : s.exchange.holder = .nobody
  · obtain ⟨n, hturn, hop, hheld, -⟩ := hs.released hholder
    rw [hturn] at hfold
    exact ⟨n, hheld, by simpa only [answersBefore, hop] using hfold⟩
  · exact ⟨s.turn, hs.held hholder, hfold⟩

theorem Underway.releasesEarly (hs : Underway limits op events s)
    (hholder : s.exchange.holder = .nobody) (hproducer : s.producer.isFinished = false) :
    ReleasesEarly limits op events := by
  obtain ⟨n, hturn, hop, hheld, hread⟩ := hs.released hholder
  obtain ⟨received, hanswers, hreceived⟩ := hs.received
  refine ⟨n, hop, hheld, hread hproducer, exists_foldlM_ok hreceived ?_⟩
  have hlast : answersBefore op n = received ++ s.exchange.responses := by
    rw [← hanswers, hturn]
    simp only [answersBefore, hop]
  rw [hlast]
  exact dropLast_append_isPrefix hs.queued

/-- A result of the caller with the writer's error was the transport's. -/
theorem Underway.answersLikeWriter_of_poll (hs : Underway limits op events s) (room : TrySend)
    (hresult : (s.pollRequest limits room).exchange.result? = some (.error bodyReceiverClosed)) :
    AnswersLikeWriter limits op := by
  unfold StreamingCall.pollRequest at hresult
  have hpolled := polled_poll limits s.cancelled s.expired room hs.waiting
  generalize s.exchange.poll limits s.cancelled s.expired room = y at hresult hpolled
  cases hpolled with
  | moved caller h hplaced => exact absurd (result?_eq_some_iff.1 hresult) (h _)
  | accepted | received => cases hresult
  | answered event rest result h hevent =>
    cases hresult
    exact hs.answersLikeWriter h hevent
  | failed error h =>
    cases hresult
    exact absurd rfl h

variable {request : HttpRequest} {chunks : List Bytes} {ending : Except HttpBridgeError Unit}

/-- A blocking call, waiting or past the return of its caller, is one that the asynchronous call can
keep up with. -/
theorem blocking_followed (conduct : Conduct (bodyEvents chunks))
    (hreach : Reach (step limits conduct.op .blocking) (start request chunks ending) s) :
    (Underway limits conduct.op (bodyEvents chunks) s ∧
      Followed limits conduct.op (start request chunks ending) s) ∨
    ∃ result, (s.result = some result ∨ s.result = none ∧ s.exchange.result? = some result) ∧
      CanReturn limits conduct.op .async request chunks ending result ∧
      (result = .error bodyReceiverClosed → AnswersLikeWriter limits conduct.op) := by
  induction hreach with
  | start =>
    by_cases hbody : request.body = []
    · exact .inl ⟨underway_start hbody chunks ending, _, .start, fun _ => rfl⟩
    · refine .inr ⟨_, .inl (if_neg hbody), ⟨_, .start, if_neg hbody⟩, fun h => ?_⟩
      cases h
  | @next s event _ _ ih =>
  rcases ih with ⟨hs, hf⟩ | ⟨result, hresult, hcan, hanswer⟩
  · rw [step_of_waiting hs.result]
    cases event with
    | poll room =>
      have hpoll : s.advance limits conduct.op .blocking (.poll room) =
          s.pollRequest limits room := by
        simp only [advance, pollBlocking, hs.waiting]
      rw [hpoll]
      rcases hf.poll hs room with ⟨hwaiting, hf⟩ | ⟨result, hresult, hcan⟩
      · exact .inl ⟨hs.pollRequest room hwaiting, hf⟩
      · refine .inr ⟨result, .inr ⟨hs.result, hresult⟩, hcan, ?_⟩
        rintro rfl
        exact hs.answersLikeWriter_of_poll room hresult
    | produce => exact .inl ⟨hs.produce, hf.produce hs⟩
    | transport =>
      obtain ⟨heq, hs'⟩ := hs.operate conduct.reads_le .blocking
      exact .inl ⟨hs', by simpa only [advance, heq] using hf.operate hs⟩
    | cancel => exact .inl ⟨hs.cancel, hf.cancel hs⟩
    | expire =>
      simp only [advance]
      split
      next hlimits => exact .inl ⟨hs.expire, hf.expire hs hlimits⟩
      · exact .inl ⟨hs, hf⟩
  · -- the result of the caller stays
    refine .inr ⟨result, ?_, hcan, hanswer⟩
    rcases hresult with hresult | ⟨hresult, hexchange⟩
    · exact .inl (by simp [step, hresult])
    rw [step_of_waiting hresult]
    cases event with
    | poll =>
      simp only [advance, pollBlocking, hexchange]
      split
      · split
        · exact .inl rfl
        · exact .inr ⟨hresult, hexchange⟩
      · exact .inr ⟨hresult, hexchange⟩
    | produce => exact .inr ⟨hresult, by rw [advance, result?_produceBlocking, hexchange]⟩
    | transport =>
      refine .inr ⟨?_, ?_⟩
      · simp only [advance, operate]
        split <;> exact hresult
      · simp only [advance, operate]
        split
        next exchange hop =>
          rw [← hexchange, result?_congr (caller_transport hop)]
        · exact hexchange
    | cancel => exact .inr ⟨hresult, hexchange⟩
    | expire =>
      simp only [advance]
      split <;> exact .inr ⟨hresult, hexchange⟩

/-- Whatever the blocking call can return, the asynchronous call can return. -/
theorem canReturn_async (conduct : Conduct (bodyEvents chunks))
    (h : CanReturn limits conduct.op .blocking request chunks ending result) :
    CanReturn limits conduct.op .async request chunks ending result ∧
      (result = .error bodyReceiverClosed → AnswersLikeWriter limits conduct.op) := by
  obtain ⟨s, hreach, hresult⟩ := h
  rcases blocking_followed conduct hreach with ⟨hs, -⟩ | ⟨result', hresult', h⟩
  · rw [hs.result] at hresult
    cases hresult
  · rcases hresult' with hresult' | ⟨hnone, -⟩
    · obtain rfl := Option.some.inj (hresult.symm.trans hresult')
      exact h
    · rw [hnone] at hresult
      cases hresult

/-- An asynchronous call that waits is at a state the blocking call can be at; past its return, the
blocking call can return the same, or the writer's error was returned. -/
theorem async_followed (conduct : Conduct (bodyEvents chunks))
    (hreach : Reach (step limits conduct.op .async) (start request chunks ending) s) :
    (Underway limits conduct.op (bodyEvents chunks) s ∧
      (∀ error, s.producer ≠ .finished (.error error)) ∧
      Reach (step limits conduct.op .blocking) (start request chunks ending) s) ∨
    ∃ result, s.result = some result ∧
      (CanReturn limits conduct.op .blocking request chunks ending result ∨
        result = .error bodyReceiverClosed ∧
          ReleasesEarly limits conduct.op (bodyEvents chunks)) := by
  induction hreach with
  | start =>
    by_cases hbody : request.body = []
    · exact .inl ⟨underway_start hbody chunks ending, fun _ h => (nomatch h), .start⟩
    · exact .inr ⟨_, if_neg hbody, .inl ⟨_, .start, if_neg hbody⟩⟩
  | @next s event _ _ ih =>
  rcases ih with ⟨hs, hok, hblocking⟩ | ⟨result, hresult, h⟩
  · rw [step_of_waiting hs.result]
    cases event with
    | poll room =>
      simp only [advance, pollAsync]
      have hstep := reach_advance hblocking hs.result (.poll room)
      simp only [advance, pollBlocking, hs.waiting] at hstep
      cases hresult : (s.pollRequest limits room).exchange.result? with
      | none => exact .inl ⟨hs.pollRequest room hresult, hok, hstep⟩
      | some result =>
        obtain ⟨t, hjoin, ht⟩ : ∃ t, Reach (step limits conduct.op .blocking)
            (s.pollRequest limits room) t ∧ t.result = some result := reach_joined hs.result hresult
        exact .inr ⟨result, rfl, .inl ⟨t, Run.trans hstep hjoin, ht⟩⟩
    | produce =>
      have hstep := reach_advance hblocking hs.result .produce
      cases hproducer : s.produceBlocking.producer with
      | writing =>
        left
        simp only [advance, produceAsync, hproducer]
        exact ⟨hs.produce, by simp, hstep⟩
      | finished result =>
        cases result with
        | ok =>
          left
          simp only [advance, produceAsync, hproducer]
          exact ⟨hs.produce, by simp, hstep⟩
        | error error =>
          right
          simp only [advance, produceAsync, hproducer]
          obtain ⟨hholder, rfl⟩ := hs.produce.refused error hproducer
          refine ⟨_, rfl, .inr ⟨rfl, ?_⟩⟩
          apply hs.releasesEarly (hs.produced.holder_eq ▸ hholder)
          -- a finished producer stays as it is
          cases hfinished : s.producer with
          | writing => rfl
          | finished =>
            have hbefore : s.producer = .finished (.error bodyReceiverClosed) := by
              simp only [produceBlocking, hfinished, BodyProducer.step] at hproducer
              rw [hfinished, hproducer]
            exact absurd hbefore (hok _)
    | transport =>
      obtain ⟨heq, hs'⟩ := hs.operate conduct.reads_le .blocking
      have hstep := reach_advance hblocking hs.result .transport
      simp only [advance, heq] at hstep hs'
      refine .inl ⟨hs', ?_, hstep⟩
      simp only [advance, operate]
      split <;> exact hok
    | cancel => exact .inl ⟨hs.cancel, hok, reach_advance hblocking hs.result .cancel⟩
    | expire =>
      have hstep := reach_advance hblocking hs.result .expire
      simp only [advance] at hstep ⊢
      split
      next hlimits => exact .inl ⟨hs.expire, hok, by simpa only [hlimits, if_true] using hstep⟩
      · exact .inl ⟨hs, hok, hblocking⟩
  · exact .inr ⟨result, by simp [step, hresult], h⟩

end Simulation

/-! ### Schedules that reach an operation of the transport -/

section Schedules

variable {limits : HttpRequestLimits} {op : ℕ → TransportOp} {events : ℕ} {s : StreamingCall}

/-- A call in front of operation `n` of its transport whose producer is as late as it can be: what
it has handed over is read. -/
structure Late (limits : HttpRequestLimits) (op : ℕ → TransportOp) (events n : ℕ)
    (s : StreamingCall) : Prop where
  underway : Underway limits op events s
  turn : s.turn = n
  caller : s.exchange.caller = .receive .cancelled
  holder : s.exchange.holder = .transport
  body : s.exchange.body = []
  point : ∀ chunks ending point, s.producer = .writing chunks ending point → point = .cancelled
  flags : s.cancelled = false ∧ s.expired = false

variable {chunks : List Bytes} {ending : Except HttpBridgeError Unit} (mode : CallMode) {n : ℕ}

/-- An empty chunk takes one step. -/
theorem produceBlocking_skip {point : SendPoint}
    (h : s.producer = .writing ([] :: chunks) ending point) :
    s.produceBlocking = { s with producer := .writing chunks ending .cancelled } := by
  simp [produceBlocking, h, BodyProducer.step]

/-- The check of a writer that is not cancelled. -/
theorem produceBlocking_check (h : s.producer = .writing chunks ending .cancelled)
    (hchunks : chunks.head? ≠ some []) (hs : s.producerCancelled = false) :
    s.produceBlocking = { s with producer := .writing chunks ending .channel } := by
  cases chunks with
  | nil => simp [produceBlocking, h, hs, BodyProducer.step, sendEvent]
  | cons chunk chunks =>
    have hchunk : chunk ≠ [] := by simpa using hchunks
    simp [produceBlocking, h, hs, hchunk, BodyProducer.step, sendEvent]

/-- A step of the producer that does not fail. -/
theorem reach_producing (hs : Underway limits op events s) {t : StreamingCall}
    (ht : s.produceBlocking = t) (hok : ∀ error, t.producer ≠ .finished (.error error)) :
    Reach (step limits op mode) s t ∧ Underway limits op events t := by
  subst ht
  exact ⟨reach_produceBlocking mode hs hok, hs.produce⟩

/-- The producer drops empty chunks and checks that its writer is not cancelled. -/
theorem reach_checked (hs : Underway limits op events s)
    (h : s.producer = .writing chunks ending .cancelled) :
    ∃ chunks', chunks'.head? ≠ some [] ∧
      Reach (step limits op mode) s { s with producer := .writing chunks' ending .channel } ∧
      Underway limits op events { s with producer := .writing chunks' ending .channel } := by
  induction chunks generalizing s with
  | nil => exact ⟨[], by simp, reach_producing mode hs
      (produceBlocking_check h (by simp) hs.producing) nofun⟩
  | cons chunk chunks ih =>
    by_cases hchunk : chunk = []
    · subst hchunk
      obtain ⟨hreach, hnext⟩ := reach_producing mode hs (produceBlocking_skip h) nofun
      obtain ⟨chunks', hchunks', hreach', hlast⟩ := ih hnext rfl
      exact ⟨chunks', hchunks', Run.trans hreach hreach', hlast⟩
    · exact ⟨chunk :: chunks, by simpa using hchunk, reach_producing mode hs
        (produceBlocking_check h (by simpa using hchunk) hs.producing) nofun⟩

/-- A producer with events left hands over the next one. -/
theorem reach_push (hs : Underway limits op events s) (hholder : s.exchange.holder = .transport)
    (hbody : s.exchange.body = []) (h : s.producer = .writing chunks ending .cancelled) :
    ∃ q event, Reach (step limits op mode) s
        { s with producer := q, exchange := { s.exchange with body := [event] } } ∧
      Underway limits op events
        { s with producer := q, exchange := { s.exchange with body := [event] } } ∧
      ∀ chunks ending point, q = .writing chunks ending point → point = .cancelled := by
  obtain ⟨chunks', hchunks', hreach, hnext⟩ := reach_checked mode hs h
  have hsend : ∃ q event,
      ({ s with producer := .writing chunks' ending .channel } : StreamingCall).produceBlocking =
        { s with producer := q, exchange := { s.exchange with body := [event] } } ∧
      (∀ chunks ending point, q = .writing chunks ending point → point = .cancelled) ∧
      ∀ error, q ≠ .finished (.error error) := by
    cases chunks' with
    | nil =>
      refine ⟨.finished (.ok ()), .complete ending, ?_, nofun, nofun⟩
      simp [produceBlocking, BodyProducer.step, sendEvent, trySendBody_of_room _ hholder hbody]
    | cons chunk chunks' =>
      have hchunk : chunk ≠ [] := by simpa using hchunks'
      refine ⟨.writing chunks' ending .cancelled, .chunk chunk, ?_, fun _ _ _ h => ?_, nofun⟩
      · simp [produceBlocking, BodyProducer.step, sendEvent, hchunk,
          trySendBody_of_room _ hholder hbody]
      · cases h
        rfl
  obtain ⟨q, event, hsend, hq, hok⟩ := hsend
  obtain ⟨hreach', hlast⟩ := reach_producing mode hnext hsend hok
  exact ⟨q, event, Run.trans hreach hreach', hlast, hq⟩

/-- The two checks in front of the channel. -/
theorem Late.reach_channel (hs : Late limits op events n s) :
    ∃ t, t = { s with exchange := { s.exchange with caller := .receive .channel } } ∧
      Underway limits op events t ∧ Reach (step limits op mode) s t := by
  have hfirst : s.pollRequest limits .ok =
      { s with exchange := { s.exchange with caller := .receive .deadline } } := by
    simp [pollRequest, poll, hs.caller, hs.flags.1]
  have hreach := reach_pollRequest mode hs.underway .ok (by rw [hfirst]; rfl)
  have hnext := hs.underway.pollRequest .ok (by rw [hfirst]; rfl)
  rw [hfirst] at hreach hnext
  generalize hmid : ({ s with exchange := { s.exchange with caller := .receive .deadline } } :
    StreamingCall) = m at hreach hnext
  have hsecond : m.pollRequest limits .ok =
      { s with exchange := { s.exchange with caller := .receive .channel } } := by
    subst hmid
    simp [pollRequest, poll, hs.flags.2]
  have hreach' := reach_pollRequest mode hnext .ok (by rw [hsecond]; rfl)
  have hlast := hnext.pollRequest .ok (by rw [hsecond]; rfl)
  rw [hsecond] at hreach' hlast
  exact ⟨_, rfl, hlast, Run.trans hreach hreach'⟩

/-- The caller takes what was answered, none of which ends the call. -/
theorem Late.reach_received (hs : Late limits op events n s) {body : Bytes}
    (hok : (answersBefore op n).foldlM (receiveEvent limits.responseBodyBytes) [] = .ok body) :
    ∃ t, Reach (step limits op mode) s t ∧ Late limits op events n t ∧
      t.exchange.responses = [] := by
  cases hresponses : s.exchange.responses with
  | nil => exact ⟨s, .start, hs, hresponses⟩
  | cons event rest =>
    obtain rfl : rest = [] := by
      have hqueued := hs.underway.queued
      rw [hresponses, length_cons] at hqueued
      exact eq_nil_of_length_eq_zero (by omega)
    obtain ⟨t, rfl, ht, hreach⟩ := hs.reach_channel mode
    obtain ⟨received, hanswers, hreceived⟩ := hs.underway.received
    -- the answer in the queue does not end the call either
    obtain ⟨body', hbody'⟩ : ∃ body',
        receiveEvent limits.responseBodyBytes s.exchange.responseBody event = .ok body' := by
      rw [← hs.turn, hanswers, hresponses, foldlM_append, hreceived] at hok
      obtain ⟨_, hstart, hlast⟩ := Except.bind_eq_ok_iff.1 hok
      cases hstart
      obtain ⟨body', h, -⟩ := Except.bind_eq_ok_iff.1 hlast
      exact ⟨body', h⟩
    have hpoll : ({ s with exchange := { s.exchange with caller := .receive .channel } } :
        StreamingCall).pollRequest limits .ok = { s with exchange := { s.exchange with
          caller := .receive .cancelled, responses := [], responseBody := body' } } := by
      simp [pollRequest, poll, Exchange.receiveResponse, hresponses, hbody']
    have hreach' := reach_pollRequest mode ht .ok (by rw [hpoll]; rfl)
    have hnext := ht.pollRequest .ok (by rw [hpoll]; rfl)
    rw [hpoll] at hreach' hnext
    exact ⟨_, Run.trans hreach hreach', { hs with underway := hnext, caller := rfl }, rfl⟩

/-- An answer of the transport to a caller that has received everything before it. -/
theorem Late.reach_respond (hs : Late limits op events n s)
    (hreads : ∀ n, readsBefore op n ≤ events) (hresponses : s.exchange.responses = [])
    {event : HttpBridgeResponseEvent} (hn : op n = .respond event) :
    ∃ t, Reach (step limits op mode) s t ∧ Late limits op events (n + 1) t ∧
      t.exchange.responses = [event] ∧ t.exchange.responseBody = s.exchange.responseBody := by
  have hput : s.operate op mode = { s with
      exchange := { s.exchange with responses := [event] }, turn := n + 1 } := by
    simp [operate, transport, hs.holder, hs.turn, hn, hs.underway.waiting, hresponses,
      httpResponseEventQueueSize]
  have hoperate := reach_operate mode hs.underway
  have hnext := (hs.underway.operate hreads mode).2
  rw [hput] at hoperate hnext
  exact ⟨_, hoperate, { hs with underway := hnext, turn := rfl }, rfl, rfl⟩

/-- The schedule that takes a call to operation `n` of its transport. -/
theorem reach_late {request : HttpRequest} (hbody : request.body = [])
    (chunks : List Bytes) (ending : Except HttpBridgeError Unit)
    (conduct : Conduct (bodyEvents chunks)) (hheld : ∀ m < n, conduct.op m ≠ .release)
    (hok : ∃ body, (answersBefore conduct.op n).dropLast.foldlM
      (receiveEvent limits.responseBodyBytes) [] = .ok body) :
    ∃ s, Reach (step limits conduct.op mode) (start request chunks ending) s ∧
      Late limits conduct.op (bodyEvents chunks) n s := by
  induction n with
  | zero =>
    have h₀ : Underway limits conduct.op (bodyEvents chunks) (start request chunks ending) :=
      underway_start hbody chunks ending
    have h₁ := h₀.pollRequest .ok rfl
    have h₂ := h₁.pollRequest .ok rfl
    refine ⟨_, Run.trans (Run.trans (reach_pollRequest mode h₀ .ok rfl)
      (reach_pollRequest mode h₁ .ok rfl)) (reach_pollRequest mode h₂ .ok rfl), ?_⟩
    exact {
      underway := h₂.pollRequest .ok rfl
      turn := rfl
      caller := rfl
      holder := rfl
      body := rfl
      point := fun _ _ _ h => by cases h; rfl
      flags := ⟨rfl, rfl⟩ }
  | succ n ih =>
    obtain ⟨body, hok⟩ := hok
    have hbefore : ∀ m < n, conduct.op m ≠ .release := fun m hm => hheld m (Nat.lt_succ_of_lt hm)
    have hop := hheld n (Nat.lt_succ_self n)
    cases hn : conduct.op n with
    | release => exact absurd hn hop
    | read =>
      obtain ⟨s, hreach, hs⟩ := ih hbefore ⟨body, by simpa only [answersBefore, hn] using hok⟩
      -- the producer has an event left for this read
      have hcount := hs.underway.counted (by simp [hs.holder])
      have hread := conduct.reads_le (n + 1)
      simp only [readsBefore, hn] at hread
      rw [hs.body, hs.turn, length_nil] at hcount
      cases hproducer : s.producer with
      | finished =>
        rw [hproducer, pending] at hcount
        omega
      | writing chunks' ending' point =>
        obtain rfl := hs.point _ _ _ hproducer
        obtain ⟨q, event, hpush, ht, hq⟩ :=
          reach_push mode hs.underway hs.holder hs.body hproducer
        have htake : ({ s with producer := q, exchange := { s.exchange with body := [event] } } :
            StreamingCall).operate conduct.op mode =
            { s with producer := q, exchange := { s.exchange with body := [] }, turn := n + 1 } := by
          simp [operate, transport, hs.holder, hs.turn, hn]
        have hoperate := reach_operate mode ht
        have hnext := (ht.operate conduct.reads_le mode).2
        rw [htake] at hoperate hnext
        exact ⟨_, Run.trans hreach (Run.trans hpush hoperate), {
          underway := hnext
          turn := rfl
          caller := hs.caller
          holder := hs.holder
          body := rfl
          point := hq
          flags := hs.flags }⟩
    | respond =>
      simp only [answersBefore, hn, dropLast_concat] at hok
      obtain ⟨s, hreach, hs⟩ := ih hbefore
        (exists_foldlM_ok hok (List.dropLast_prefix _))
      obtain ⟨t, hreceived, ht, hresponses⟩ := hs.reach_received mode hok
      obtain ⟨u, hrespond, hu, -⟩ := ht.reach_respond mode conduct.reads_le hresponses hn
      exact ⟨u, Run.trans hreach (Run.trans hreceived hrespond), hu⟩

/-- A producer that meets a closed receiver ends the asynchronous call, whatever it still had to
write. -/
theorem reach_refused (hs : Underway limits op events s) (hholder : s.exchange.holder = .nobody)
    (h : s.producer = .writing chunks ending .cancelled) :
    ∃ t, Reach (step limits op .async) s t ∧ t.result = some (.error bodyReceiverClosed) := by
  obtain ⟨chunks', hchunks', hreach, hnext⟩ := reach_checked .async hs h
  -- the end of the stream is refused
  have hrefused : ∀ ending, ({ s with producer := .writing [] ending .channel } :
      StreamingCall).produceAsync.result = some (.error bodyReceiverClosed) := by
    intro ending
    simp [produceAsync, produceBlocking, BodyProducer.step,
      sendEvent, trySendBody_of_nobody _ hholder, bodyReceiverClosed]
  cases chunks' with
  | nil => exact ⟨_, reach_advance hreach hs.result .produce, hrefused ending⟩
  | cons chunk chunks' =>
    have hchunk : chunk ≠ [] := by simpa using hchunks'
    -- the producer returns the error, and its writer tries to pass that on
    have hfail : ({ s with producer := .writing (chunk :: chunks') ending .channel } :
        StreamingCall).produceBlocking =
        { s with producer := .writing [] (.error bodyReceiverClosed) .cancelled } := by
      simp [produceBlocking, BodyProducer.step, sendEvent, hchunk,
        trySendBody_of_nobody _ hholder, bodyReceiverClosed]
    obtain ⟨hreach', hlast⟩ := reach_producing .async hnext hfail nofun
    obtain ⟨hreach'', -⟩ := reach_producing .async hlast
      (produceBlocking_check rfl (by simp) hs.producing) nofun
    exact ⟨_, reach_advance (Run.trans hreach (Run.trans hreach' hreach'')) hs.result .produce,
      hrefused _⟩

end Schedules

section Agreement

variable {limits : HttpRequestLimits} {request : HttpRequest} {chunks : List Bytes}
  {ending : Except HttpBridgeError Unit}

theorem canReturn_of_releasesEarly (hbody : request.body = [])
    (conduct : Conduct (bodyEvents chunks))
    (h : ReleasesEarly limits conduct.op (bodyEvents chunks)) :
    CanReturn limits conduct.op .async request chunks ending (.error bodyReceiverClosed) := by
  obtain ⟨n, hop, hheld, hread, hok⟩ := h
  obtain ⟨s, hreach, hs⟩ := reach_late .async hbody chunks ending conduct hheld hok
  have hcount := hs.underway.counted (by simp [hs.holder])
  rw [hs.body, hs.turn, length_nil] at hcount
  cases hproducer : s.producer with
  | finished =>
    rw [hproducer, pending] at hcount
    omega
  | writing =>
    obtain rfl := hs.point _ _ _ hproducer
    have hrelease : s.operate conduct.op .async = { s with
        exchange := { s.exchange with holder := .nobody, body := [] }, turn := n + 1 } := by
      simp [operate, transport, hs.holder, hs.turn, hop]
    have hoperate := reach_operate .async hs.underway
    have hnext := (hs.underway.operate conduct.reads_le .async).2
    rw [hrelease] at hoperate hnext
    obtain ⟨t, hrefused, ht⟩ := reach_refused hnext rfl hproducer
    exact ⟨t, Run.trans hreach (Run.trans hoperate hrefused), ht⟩

theorem canReturn_of_answersLikeWriter (hbody : request.body = [])
    (conduct : Conduct (bodyEvents chunks)) (h : AnswersLikeWriter limits conduct.op) :
    CanReturn limits conduct.op .blocking request chunks ending (.error bodyReceiverClosed) := by
  obtain ⟨n, hheld, hfold⟩ := h
  obtain ⟨m, hm, event, hop, body, hok, hevent⟩ := exists_last_answer hfold
  have hbefore : ∀ k < m, conduct.op k ≠ .release := fun k hk => hheld k (hk.trans hm)
  obtain ⟨s, hreach, hs⟩ := reach_late .blocking hbody chunks ending conduct hbefore
    (exists_foldlM_ok hok (List.dropLast_prefix _))
  obtain ⟨t, hreceived, ht, hresponses⟩ := hs.reach_received .blocking hok
  obtain ⟨u, hrespond, hu, huresponses, hubody⟩ :=
    ht.reach_respond .blocking conduct.reads_le hresponses hop
  obtain ⟨v, rfl, hv, hchannel⟩ := hu.reach_channel .blocking
  -- what the caller has received so far
  obtain rfl : u.exchange.responseBody = body := by
    obtain ⟨received, hanswers, hfold⟩ := ht.underway.received
    rw [hresponses, append_nil, ht.turn] at hanswers
    rw [hubody]
    exact Except.ok.inj (hfold.symm.trans (hanswers ▸ hok))
  have hlast := reach_advance (Run.trans hreach (Run.trans hreceived (Run.trans hrespond hchannel)))
    hv.result (.poll .ok)
  simp only [advance, pollBlocking, hv.waiting] at hlast
  obtain ⟨w, hjoin, hw⟩ : ∃ w, Reach (step limits conduct.op .blocking)
      (({ u with exchange := { u.exchange with caller := .receive .channel } } :
        StreamingCall).pollRequest limits .ok) w ∧ w.result = some (.error bodyReceiverClosed) := by
    refine reach_joined hv.result ?_
    simp [pollRequest, poll, Exchange.receiveResponse, huresponses, hevent]
  exact ⟨w, Run.trans hlast hjoin, hw⟩

/-- The two calls can return the same results. -/
def Agree (limits : HttpRequestLimits) (op : ℕ → TransportOp) (request : HttpRequest)
    (chunks : List Bytes) (ending : Except HttpBridgeError Unit) : Prop :=
  ∀ result, CanReturn limits op .async request chunks ending result ↔
    CanReturn limits op .blocking request chunks ending result

/-- A request with a buffered body is refused by both calls. -/
theorem agree_of_body (hbody : request.body ≠ []) (op : ℕ → TransportOp) :
    Agree limits op request chunks ending := by
  have hstart (mode : CallMode) {s : StreamingCall}
      (h : Reach (step limits op mode) (start request chunks ending) s) :
      s = start request chunks ending := by
    induction h with
    | start => rfl
    | next event _ _ ih => simp [ih, step, start, hbody]
  intro result
  constructor
  · rintro ⟨s, hreach, hresult⟩
    obtain rfl := hstart .async hreach
    exact ⟨_, .start, hresult⟩
  · rintro ⟨s, hreach, hresult⟩
    obtain rfl := hstart .blocking hreach
    exact ⟨_, .start, hresult⟩

/-- Every other result of the asynchronous call is one of the blocking call. -/
theorem canReturn_blocking (conduct : Conduct (bodyEvents chunks))
    {result : Except HttpBridgeError HttpResponse}
    (h : CanReturn limits conduct.op .async request chunks ending result) :
    CanReturn limits conduct.op .blocking request chunks ending result ∨
      result = .error bodyReceiverClosed ∧
        ReleasesEarly limits conduct.op (bodyEvents chunks) := by
  obtain ⟨s, hreach, hresult⟩ := h
  rcases async_followed conduct hreach with ⟨hs, -⟩ | ⟨result', hresult', h⟩
  · rw [hs.result] at hresult
    cases hresult
  · obtain rfl := Option.some.inj (hresult.symm.trans hresult')
    exact h

/-- The two calls can return the same results exactly where the transport reads the body to its end
before it lets go of a request whose caller may still wait (or gives the writer's error itself). -/
theorem streamingCalls_agree_iff (conduct : Conduct (bodyEvents chunks)) :
    Agree limits conduct.op request chunks ending ↔
      request.body ≠ [] ∨ ¬ ReleasesEarly limits conduct.op (bodyEvents chunks) ∨
        AnswersLikeWriter limits conduct.op := by
  by_cases hbody : request.body = []
  · rw [or_iff_right (not_not_intro hbody)]
    constructor
    · intro hagree
      rw [or_iff_not_imp_left, not_not]
      intro hearly
      have hblocking := (hagree _).1 (canReturn_of_releasesEarly hbody conduct hearly)
      exact (canReturn_async conduct hblocking).2 rfl
    · intro h result
      refine ⟨fun hasync => ?_, fun hblocking => (canReturn_async conduct hblocking).1⟩
      rcases canReturn_blocking conduct hasync with hblocking | ⟨rfl, hearly⟩
      · exact hblocking
      · exact canReturn_of_answersLikeWriter hbody conduct (h.resolve_left (not_not_intro hearly))
  · exact iff_of_true (agree_of_body hbody conduct.op) (.inl hbody)

/-- A transport that answers before it has read anything and lets go of the request. -/
def answerAtOnce (response : HttpResponse) (events : ℕ) : Conduct events where
  op n := if n = 0 then .respond (.complete (.ok response)) else .release
  reads_le n := by
    have hreads : ∀ n, readsBefore (fun n =>
        if n = 0 then .respond (.complete (.ok response)) else .release) n = 0 := by
      intro n
      induction n with
      | zero => rfl
      | succ n ih =>
        rw [readsBefore]
        split
        next h => split at h <;> cases h
        · exact ih
    rw [hreads]
    exact Nat.zero_le events

/-- A response of status 200 to an upload of one chunk, sent before the chunk was read. -/
theorem not_agree_answerAtOnce :
    ¬ Agree ⟨16777216, some 30000000000⟩ (answerAtOnce ⟨200, [], []⟩ (bodyEvents [[1]])).op
      ⟨"POST".toList, "http://h/".toList, [], [], by decide⟩ [[1]] (.ok ()) := by
  intro hagree
  have hasync :
      CanReturn ⟨16777216, some 30000000000⟩ (answerAtOnce ⟨200, [], []⟩ (bodyEvents [[1]])).op
      .async ⟨"POST".toList, "http://h/".toList, [], [], by decide⟩ [[1]] (.ok ())
      (.error bodyReceiverClosed) :=
    canReturn_of_releasesEarly rfl _ ⟨1, rfl, by simp [answerAtOnce], by decide, [], rfl⟩
  obtain ⟨n, hheld, hfold⟩ := (canReturn_async _ ((hagree _).1 hasync)).2 rfl
  match n with
  | 0 => cases hfold
  | 1 => cases hfold
  | n + 2 => exact hheld 1 (by omega) rfl

end Agreement

end StreamingCall

end WasmHost

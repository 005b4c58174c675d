import WasmHost.Http.StreamingAgreement
import WasmHost.Lib.Fairness

/-!
# Reading the body of a request

`GatewayHttpRequestBodyReader` in front of a transport: the buffered body of a request, or the
stream whose chunks a producer sends through a channel with one slot. The end of the body, or its
failure, is an event of that channel, which the reader takes but does not remember: a read behind
it waits for a sender that has nothing to send, or finds it gone.

* `BodyTransfer.endsCleanly`: the reads of a transport that asks for nothing behind the end.
* `BodyTransfer.not_endsCleanly`: one that asks again.
-/

namespace WasmHost

open List

/-- The two places of a loop that receives. -/
inductive ReadPoint
  | cancelled | channel
  deriving DecidableEq

/-- The body of a request that has not been read, apart from its stream. -/
structure GatewayHttpRequestBodyReader where
  buffered : Option Bytes
  /-- `stream_request` is there. -/
  streaming : Bool

/-- `GatewayHttpRequestBodyReader::new`, of a request with a body and possibly a stream. -/
def GatewayHttpRequestBodyReader.new (body : Bytes) (streaming : Bool) :
    GatewayHttpRequestBodyReader where
  buffered := if body = [] then none else some body
  streaming := streaming

/-- A call of the reader: `read_chunk`, or `read_to_end` with what it has read. -/
inductive BodyCall
  | chunk
  | toEnd (body : Bytes)

/-- What a call of the reader returns. -/
inductive BodyResult
  | chunk (result : Except HttpBridgeError (Option Bytes))
  | body (result : Except HttpBridgeError Bytes)

/-- The result says that the body is over. -/
def BodyResult.isEnd : BodyResult → Bool
  | .chunk (.ok none) => true
  | .chunk _ => false
  | .body (.ok _) => true
  | .body (.error _) => false

/-- The body of a request between its producer and its reader. The transport holds the request, so
the channel of the exchange is open. -/
structure BodyTransfer where
  reader : GatewayHttpRequestBodyReader
  /-- The call that waits for the channel. -/
  call : Option (BodyCall × ReadPoint)
  results : List BodyResult
  /-- The token of the request. -/
  cancelled : Bool
  exchange : Exchange
  producer : BodyProducer
  producerCancelled : Bool
  writerDropped : Bool

/-- The steps of a transfer. -/
inductive BodyStep
  | call (call : BodyCall)
  | poll
  | produce
  | dropWriter
  | cancel
  | cancelProducer

/-- The two sides of a transfer. -/
inductive BodyParty
  | reader | producer
  deriving DecidableEq

/-- The chunks a producer writes, and how it ends. -/
abbrev BodyScript := List Bytes × Except HttpBridgeError Unit

namespace BodyTransfer

/-- The transfer before its first step. -/
def start (body : Bytes) (stream : Option BodyScript) : BodyTransfer where
  reader := .new body stream.isSome
  call := none
  results := []
  cancelled := false
  exchange := { Exchange.start with holder := .transport }
  producer :=
    match stream with
    | some script => .writing script.1 script.2 .cancelled
    | none => .finished (.ok ())
  producerCancelled := false
  writerDropped := false

/-- Answers a call. -/
def finish (result : BodyResult) (s : BodyTransfer) : BodyTransfer :=
  { s with call := none, results := s.results ++ [result] }

/-- A call waits for the stream. -/
def await (call : BodyCall) (s : BodyTransfer) : BodyTransfer :=
  { s with call := some (call, .cancelled) }

/-- What a call does with the result of `read_chunk`. -/
def answer (call : BodyCall) (result : Except HttpBridgeError (Option Bytes)) (s : BodyTransfer) :
    BodyTransfer :=
  match call with
  | .chunk => s.finish (.chunk result)
  | .toEnd body =>
    match result with
    | .ok (some chunk) => s.await (.toEnd (body ++ chunk))
    | .ok none => s.finish (.body (.ok body))
    | .error error => s.finish (.body (.error error))

/-- `read_chunk_blocking` or `read_chunk_async` without a buffered body, up to the loop. -/
def readChunk (call : BodyCall) (s : BodyTransfer) : BodyTransfer :=
  if s.reader.streaming then s.await call else s.answer call (.ok none)

/-- A call begins. -/
def begin (call : BodyCall) (s : BodyTransfer) : BodyTransfer :=
  match s.reader.buffered with
  | none => s.readChunk call
  | some buffered =>
    let s := { s with reader := { s.reader with buffered := none } }
    match call with
    | .chunk => s.finish (.chunk (.ok (some buffered)))
    | .toEnd body => s.readChunk (.toEnd (body ++ buffered))

/-- One step of `HttpRequestBodyStream::read_chunk_blocking` or `read_chunk_async`. -/
def poll (s : BodyTransfer) : BodyTransfer :=
  match s.call with
  | none => s
  | some (call, .cancelled) =>
    if s.cancelled then s.answer call (.error (.cancelled "HTTP request cancelled"))
    else { s with call := some (call, .channel) }
  | some (call, .channel) =>
    match s.exchange.body with
    | event :: rest =>
      let s := { s with exchange := { s.exchange with body := rest } }
      match event with
      | .chunk chunk => s.answer call (.ok (some chunk))
      | .complete (.ok _) => s.answer call (.ok none)
      | .complete (.error error) => s.answer call (.error error)
    | [] =>
      if s.writerDropped then
        s.answer call (.error (.transport "HTTP request body sender closed"))
      else s.await call

/-- A step of the producer. -/
def produce (s : BodyTransfer) : BodyTransfer :=
  let (producer, exchange) := s.producer.step s.producerCancelled s.exchange
  { s with producer := producer, exchange := exchange }

/-- A step of the system. The writer goes with the thread of a blocking call when the producer is
done, or with an asynchronous call when that returns. -/
def step (s : BodyTransfer) : BodyStep → BodyTransfer
  | .call .chunk => if s.call.isSome then s else s.begin .chunk
  | .call (.toEnd _) => if s.call.isSome then s else s.begin (.toEnd [])
  | .poll => s.poll
  | .produce => s.produce
  | .dropWriter => if s.producer.isFinished then { s with writerDropped := true } else s
  | .cancel => { s with cancelled := true }
  | .cancelProducer => { s with producerCancelled := true }

/-- A step of the reader or of the producer. -/
def turn (s : BodyTransfer) : BodyParty → BodyTransfer
  | .reader => s.poll
  | .producer => s.produce

end BodyTransfer

/-! ### What the reads of a body return -/

/-- The results of reads that go through the chunks of a body in order, with the chunks that are
left or, when the end or the failure has been reported, `none`. -/
inductive Delivered (chunks : List Bytes) (ending : Except HttpBridgeError Unit) :
    List BodyResult → Option (List Bytes) → Prop
  | start : Delivered chunks ending [] (some chunks)
  | chunk {results : List BodyResult} {chunk : Bytes} {rest : List Bytes}
      (h : Delivered chunks ending results (some (chunk :: rest))) :
      Delivered chunks ending (results ++ [.chunk (.ok (some chunk))]) (some rest)
  | ended {results : List BodyResult} (h : Delivered chunks ending results (some [])) :
      Delivered chunks ending (results ++ [.chunk (ending.map fun _ => none)]) none
  | body {results : List BodyResult} {rest : List Bytes}
      (h : Delivered chunks ending results (some rest)) :
      Delivered chunks ending (results ++ [.body (ending.map fun _ => rest.flatten)]) none
  | againChunk {results : List BodyResult} (h : Delivered chunks ending results none)
      (hok : ending = .ok ()) : Delivered chunks ending (results ++ [.chunk (.ok none)]) none
  | againBody {results : List BodyResult} (h : Delivered chunks ending results none)
      (hok : ending = .ok ()) : Delivered chunks ending (results ++ [.body (.ok [])]) none

variable {chunks : List Bytes} {ending : Except HttpBridgeError Unit} {results : List BodyResult}
    {left : Option (List Bytes)}

/-- The reads of a body that ends well do not fail. -/
theorem Delivered.ne_error (h : Delivered chunks ending results left) (hok : ending = .ok ())
    (error : HttpBridgeError) : BodyResult.chunk (.error error) ∉ results := by
  induction h with
  | start => exact not_mem_nil
  | chunk h ih => simpa using ih
  | ended h ih => simpa [hok, Except.map] using ih
  | body _ ih | againChunk _ _ ih | againBody _ _ ih => simpa using ih

/-- The result is a chunk. -/
def BodyResult.isChunk : BodyResult → Bool
  | .chunk (.ok (some _)) => true
  | _ => false

/-- The results tell whether the end or the failure of the body has been reported. -/
theorem Delivered.isSome_eq (h : Delivered chunks ending results left) :
    left.isSome = results.all BodyResult.isChunk := by
  induction h with
  | start => rfl
  | chunk h ih => simp [← ih, BodyResult.isChunk]
  | ended => cases ending <;> simp [BodyResult.isChunk, Except.map]
  | body => simp [BodyResult.isChunk]
  | againChunk _ _ ih | againBody _ _ ih => simp [← ih]

/-! ### Events of a body -/

/-- The non-empty chunks of a script. -/
def nonempty (chunks : List Bytes) : List Bytes := chunks.filter (· ≠ [])

/-- The chunks of a request: its body, if that is not empty, and those of its stream. -/
def bodyChunks (body : Bytes) (stream : Option BodyScript) : List Bytes :=
  (if body = [] then [] else [body]) ++ nonempty ((stream.map Prod.fst).getD [])

/-- How the body of a request ends. -/
def bodyEnding (stream : Option BodyScript) : Except HttpBridgeError Unit :=
  (stream.map Prod.snd).getD (.ok ())

/-- The events of some chunks and the end behind them. -/
def scriptEvents (chunks : List Bytes) (ending : Except HttpBridgeError Unit) :
    List HttpRequestBodyEvent := chunks.map .chunk ++ [.complete ending]

/-- The event reports that the body is over. -/
def HttpRequestBodyEvent.isEnd : HttpRequestBodyEvent → Bool
  | .complete (.ok _) => true
  | .complete (.error _) => false
  | .chunk _ => false

/-- How often some events report that the body is over. -/
def endEvents (events : List HttpRequestBodyEvent) : ℕ := events.countP HttpRequestBodyEvent.isEnd

theorem endEvents_append (events events' : List HttpRequestBodyEvent) :
    endEvents (events ++ events') = endEvents events + endEvents events' :=
  countP_append

theorem endEvents_scriptEvents_le (chunks : List Bytes) (ending : Except HttpBridgeError Unit) :
    endEvents (scriptEvents chunks ending) ≤ 1 := by
  have hchunks : endEvents (chunks.map .chunk) = 0 := by
    refine countP_eq_zero.2 fun event hmem => ?_
    obtain ⟨chunk, -, rfl⟩ := mem_map.1 hmem
    exact Bool.false_ne_true
  unfold scriptEvents
  rw [endEvents_append, hchunks, Nat.zero_add]
  exact countP_le_length

namespace BodyProducer

/-- The events that a producer has not sent yet. -/
def events : BodyProducer → List HttpRequestBodyEvent
  | .writing chunks ending _ => scriptEvents (nonempty chunks) ending
  | .finished _ => []

/-- The chunks a producer still has to look at, and its end. -/
def load : BodyProducer → ℕ
  | .writing chunks _ _ => chunks.length + 1
  | .finished _ => 0

/-- A producer at the check of the token has one step more to make. -/
def sendRank : BodyProducer → ℕ
  | .writing _ _ .cancelled => 1
  | .writing _ _ .channel => 0
  | .finished _ => 0

theorem sendRank_le (p : BodyProducer) : p.sendRank ≤ 1 := by
  unfold sendRank
  split <;> decide

variable {p : BodyProducer}

theorem events_of_load (h : p.load = 0) : p.events = [] := by
  cases p with
  | writing => exact absurd h (Nat.succ_ne_zero _)
  | finished => rfl

theorem load_of_isFinished (h : p.isFinished = true) : p.load = 0 := by
  cases p with
  | writing => cases h
  | finished => rfl

/-- What a step of a producer that is not cancelled can do: skip an empty chunk, come to the
channel, wait for room, or send an event. -/
inductive Sends (p : BodyProducer) (x : Exchange) : BodyProducer → Exchange → Prop
  | skipped (q : BodyProducer) (hevents : q.events = p.events) (hload : q.load < p.load) :
      Sends p x q x
  | moved (q : BodyProducer) (hevents : q.events = p.events) (hload : q.load = p.load)
      (h : x.body = [] → q.sendRank < p.sendRank ∨ p.load = 0) : Sends p x q x
  | sent (q : BodyProducer) (event : HttpRequestBodyEvent) (hevents : p.events = event :: q.events)
      (hload : q.load < p.load) (hroom : x.body = []) :
      Sends p x q { x with body := [event] }

variable {x : Exchange}

/-- What `try_send` answers while the request is held. -/
theorem trySend_cases (event : HttpRequestBodyEvent) (hholder : x.holder = .transport) :
    (x.trySendBody event = (.ok, { x with body := [event] }) ∧ x.body = []) ∨
      (x.trySendBody event = (.full, x) ∧ x.body ≠ []) := by
  by_cases hbody : x.body = []
  · exact .inl ⟨Exchange.trySendBody_of_room event hholder hbody, hbody⟩
  · rcases Exchange.trySendBody_cases event x with ⟨-, hclosed⟩ | ⟨-, -, hempty⟩ | ⟨h, -⟩
    · rw [hholder] at hclosed
      cases hclosed
    · exact absurd hempty hbody
    · exact .inr ⟨h, hbody⟩

theorem sends_step (p : BodyProducer) (hholder : x.holder = .transport) :
    p.Sends x (p.step false x).1 (p.step false x).2 := by
  cases p with
  | finished => exact .moved _ rfl rfl fun _ => .inr rfl
  | writing chunks ending point =>
    cases chunks with
    | nil =>
      cases point with
      | cancelled => exact .moved _ rfl rfl fun _ => .inl Nat.one_pos
      | channel =>
        simp only [step, HttpRequestBodyWriter.sendEvent]
        rcases trySend_cases (.complete ending) hholder with ⟨h, hbody⟩ | ⟨h, hbody⟩
        · rw [h]
          exact .sent _ _ rfl Nat.one_pos hbody
        · rw [h]
          exact .moved _ rfl rfl fun hempty => absurd hempty hbody
    | cons chunk chunks =>
      by_cases hchunk : chunk = []
      · subst hchunk
        exact .skipped _ rfl (Nat.lt_succ_self _)
      have hevents : events (.writing (chunk :: chunks) ending point) =
          .chunk chunk :: scriptEvents (nonempty chunks) ending := by
        simp [events, nonempty, scriptEvents, hchunk]
      cases point with
      | cancelled =>
        simp only [step, HttpRequestBodyWriter.sendEvent, if_neg hchunk]
        exact .moved _ rfl rfl fun _ => .inl Nat.one_pos
      | channel =>
        simp only [step, HttpRequestBodyWriter.sendEvent, if_neg hchunk]
        rcases trySend_cases (.chunk chunk) hholder with ⟨h, hbody⟩ | ⟨h, hbody⟩
        · rw [h]
          exact .sent _ _ hevents (Nat.lt_succ_self _) hbody
        · rw [h]
          exact .moved _ rfl rfl fun hempty => absurd hempty hbody

/-- A producer that is cancelled can also give up. -/
theorem step_cases (cancelled : Bool) (p : BodyProducer) (hholder : x.holder = .transport) :
    p.Sends x (p.step cancelled x).1 (p.step cancelled x).2 ∨
      ((p.step cancelled x).2 = x ∧ endEvents (p.step cancelled x).1.events = 0) := by
  have hsends := sends_step p hholder
  cases cancelled with
  | false => exact .inl hsends
  | true =>
    match p with
    | .finished result => exact .inr ⟨rfl, rfl⟩
    | .writing [] ending .cancelled => exact .inr ⟨rfl, rfl⟩
    | .writing [] ending .channel => exact .inl hsends
    | .writing (chunk :: chunks) ending .channel => exact .inl hsends
    | .writing (chunk :: chunks) ending .cancelled =>
      by_cases hchunk : chunk = []
      · subst hchunk
        exact .inl hsends
      · have hstep : step true (.writing (chunk :: chunks) ending .cancelled) x =
            (.writing [] (.error (.cancelled "HTTP request cancelled")) .cancelled, x) := by
          simp only [step, HttpRequestBodyWriter.sendEvent, if_neg hchunk, if_true]
        rw [hstep]
        exact .inr ⟨rfl, rfl⟩

/-- No step of a producer adds a report that the body is over. -/
theorem endEvents_step_le (cancelled : Bool) (p : BodyProducer) (hholder : x.holder = .transport) :
    (p.step cancelled x).2.holder = .transport ∧
      endEvents ((p.step cancelled x).2.body ++ (p.step cancelled x).1.events) ≤
        endEvents (x.body ++ p.events) := by
  rcases p.step_cases cancelled hholder with hsends | ⟨hexchange, hnone⟩
  · generalize (p.step cancelled x).1 = q at hsends ⊢
    generalize (p.step cancelled x).2 = y at hsends ⊢
    cases hsends with
    | skipped hevents | moved hevents => exact ⟨hholder, le_of_eq (by rw [hevents])⟩
    | sent event hevents hload hroom =>
      refine ⟨hholder, le_of_eq ?_⟩
      rw [hevents, hroom]
      rfl
  · rw [hexchange, endEvents_append, endEvents_append, hnone]
    exact ⟨hholder, Nat.add_le_add_left (Nat.zero_le _) _⟩

end BodyProducer

namespace BodyTransfer

/-! ### Careful runs -/

/-- No read of a stream is begun behind one that has reported its end or its failure, and nothing is
cancelled. -/
def Careful (s : BodyTransfer) : BodyStep → Prop
  | .call _ => s.reader.streaming = true → s.results.all BodyResult.isChunk = true
  | .cancel => False
  | .cancelProducer => False
  | _ => True

/-- The events that are on their way to the reader. -/
def remaining (s : BodyTransfer) : List HttpRequestBodyEvent := s.exchange.body ++ s.producer.events

/-- What a reader has in front of it between two calls. -/
structure Ahead (ending : Except HttpBridgeError Unit) (s : BodyTransfer) (left : List Bytes) :
    Prop where
  split : ∃ rest, left = s.reader.buffered.toList ++ rest ∧
    (s.reader.streaming = true → s.remaining = scriptEvents rest ending) ∧
      (s.reader.streaming = false → rest = [] ∧ ending = .ok ())

/-- The chunks a call returns, and those of them it has not read yet. -/
def Reading (left rest : List Bytes) : BodyCall → Prop
  | .chunk => left = rest
  | .toEnd body => left.flatten = body ++ rest.flatten

/-- Where a reader stands: between two calls, behind the last one, or in a call that gets what is
left of the stream. -/
inductive Phase (chunks : List Bytes) (ending : Except HttpBridgeError Unit) (s : BodyTransfer) :
    Prop
  | between (left : List Bytes) (hcall : s.call = none)
      (hdelivered : Delivered chunks ending s.results (some left)) (hahead : Ahead ending s left)
  | ended (hcall : s.call = none) (hdelivered : Delivered chunks ending s.results none)
      (hbuffered : s.reader.buffered = none) (hok : s.reader.streaming = false → ending = .ok ())
  | reading (call : BodyCall) (point : ReadPoint) (left rest : List Bytes)
      (hcall : s.call = some (call, point))
      (hdelivered : Delivered chunks ending s.results (some left))
      (hbuffered : s.reader.buffered = none)
      (hstreaming : s.reader.streaming = true) (hremaining : s.remaining = scriptEvents rest ending)
      (hreading : Reading left rest call)

/-- The request is held and nothing is cancelled, and the writer does not go before its producer. -/
structure Undisturbed (s : BodyTransfer) : Prop where
  holder : s.exchange.holder = .transport
  token : s.cancelled = false
  producerToken : s.producerCancelled = false
  dropped : s.writerDropped = true → s.producer.load = 0

/-- What holds in every state of a careful run. -/
structure Sound (chunks : List Bytes) (ending : Except HttpBridgeError Unit) (s : BodyTransfer) :
    Prop extends s.Undisturbed where
  phase : Phase chunks ending s

section Careful

variable {chunks left rest : List Bytes} {ending : Except HttpBridgeError Unit} {s t : BodyTransfer}
  {call : BodyCall}

theorem scriptEvents_ne_nil (chunks : List Bytes) (ending : Except HttpBridgeError Unit) :
    scriptEvents chunks ending ≠ [] :=
  append_ne_nil_of_right_ne_nil _ (cons_ne_nil _ _)

theorem sound_start (body : Bytes) (stream : Option BodyScript) :
    (start body stream).Sound (bodyChunks body stream) (bodyEnding stream) where
  phase := by
    refine .between _ rfl .start
      ⟨nonempty ((stream.map Prod.fst).getD []), ?_, fun hstreaming => ?_, fun hstreaming => ?_⟩
    · unfold bodyChunks
      congr 1
      unfold start GatewayHttpRequestBodyReader.new
      split <;> rfl
    · cases stream with
      | none => cases hstreaming
      | some => rfl
    · cases stream with
      | none => exact ⟨rfl, rfl⟩
      | some => cases hstreaming
  holder := rfl
  token := rfl
  producerToken := rfl
  dropped h := by cases h

/-! ### The answers of a call -/

/-- A call gets the next chunk. -/
theorem Phase.answer_chunk {chunk : Bytes}
    (hdelivered : Delivered chunks ending s.results (some left))
    (hbuffered : s.reader.buffered = none) (hstreaming : s.reader.streaming = true)
    (hremaining : s.remaining = scriptEvents rest ending)
    (hreading : Reading left (chunk :: rest) call) :
    Phase chunks ending (s.answer call (.ok (some chunk))) := by
  cases call with
  | chunk =>
    obtain rfl : left = chunk :: rest := hreading
    refine .between rest rfl hdelivered.chunk ⟨rest, ?_, fun _ => hremaining, fun hnot => ?_⟩
    · show rest = s.reader.buffered.toList ++ rest
      rw [hbuffered]
      rfl
    · exact absurd (hstreaming.symm.trans hnot) Bool.true_eq_false.mp
  | toEnd body =>
    refine .reading _ .cancelled left rest rfl hdelivered hbuffered hstreaming hremaining ?_
    show left.flatten = (body ++ chunk) ++ rest.flatten
    rw [show left.flatten = body ++ (chunk :: rest).flatten from hreading, flatten_cons,
      append_assoc]

/-- A call gets the end. -/
theorem Phase.answer_end (hdelivered : Delivered chunks ending s.results (some left))
    (hbuffered : s.reader.buffered = none) (hok : s.reader.streaming = false → ending = .ok ())
    (hreading : Reading left [] call) :
    Phase chunks ending (s.answer call (ending.map fun _ => none)) := by
  cases call with
  | chunk =>
    obtain rfl : left = [] := hreading
    exact .ended rfl hdelivered.ended hbuffered hok
  | toEnd body =>
    obtain rfl : left.flatten = body :=
      Eq.trans hreading (by rw [flatten_nil, append_nil])
    cases ending with
    | ok | error => exact .ended rfl hdelivered.body hbuffered hok

theorem Undisturbed.answer (h : s.Undisturbed) (call : BodyCall)
    (result : Except HttpBridgeError (Option Bytes)) : (s.answer call result).Undisturbed := by
  have hfinish : ∀ result, (s.finish result).Undisturbed := fun _ =>
    ⟨h.holder, h.token, h.producerToken, h.dropped⟩
  cases call with
  | chunk => exact hfinish _
  | toEnd =>
    rcases result with error | chunk | chunk
    · exact hfinish _
    · exact hfinish _
    · exact ⟨h.holder, h.token, h.producerToken, h.dropped⟩

/-! ### What a step keeps -/

/-- A call reads from the stream, if there is one. -/
theorem Sound.readChunk (h : s.Undisturbed)
    (hdelivered : Delivered chunks ending s.results (some left))
    (hbuffered : s.reader.buffered = none) (hreading : Reading left rest call)
    (hstream : s.reader.streaming = true → s.remaining = scriptEvents rest ending)
    (hbody : s.reader.streaming = false → rest = [] ∧ ending = .ok ()) :
    (s.readChunk call).Sound chunks ending := by
  unfold BodyTransfer.readChunk
  split
  next hstreaming =>
    exact ⟨⟨h.holder, h.token, h.producerToken, h.dropped⟩,
      .reading call .cancelled left rest rfl hdelivered hbuffered hstreaming (hstream hstreaming)
        hreading⟩
  next hstreaming =>
    obtain ⟨rfl, rfl⟩ := hbody (Bool.eq_false_of_not_eq_true hstreaming)
    exact ⟨h.answer _ _, .answer_end hdelivered hbuffered (fun _ => rfl) hreading⟩

/-- The call that a transport makes. -/
theorem Sound.begin (h : s.Sound chunks ending) (hcall : s.call = none)
    (hcareful : s.reader.streaming = true → s.results.all BodyResult.isChunk = true)
    (hstart : call = .chunk ∨ call = .toEnd []) : (s.begin call).Sound chunks ending := by
  unfold BodyTransfer.begin
  cases h.phase with
  | between left hnone hdelivered hahead =>
    obtain ⟨rest, rfl, hstream, hbody⟩ := hahead.split
    split
    next hbuffered =>
      rw [hbuffered, Option.toList_none, nil_append] at hdelivered
      refine .readChunk h.toUndisturbed hdelivered hbuffered ?_ hstream hbody
      rcases hstart with rfl | rfl <;> rfl
    next buffered hbuffered =>
      rw [hbuffered, Option.toList_some, singleton_append] at hdelivered
      rcases hstart with rfl | rfl
      · exact ⟨⟨h.holder, h.token, h.producerToken, h.dropped⟩,
          .between rest rfl hdelivered.chunk ⟨rest, rfl, hstream, hbody⟩⟩
      · refine .readChunk ⟨h.holder, h.token, h.producerToken, h.dropped⟩ hdelivered rfl ?_ hstream
          hbody
        exact flatten_cons
  | ended hnone hdelivered hbuffered hok =>
    rw [hbuffered]
    dsimp only
    unfold BodyTransfer.readChunk
    split
    next hstreaming =>
      -- a stream that has been read to its end is not read again
      have hchunks := hdelivered.isSome_eq.trans (hcareful hstreaming)
      cases hchunks
    next hstreaming =>
      have hend := hok (Bool.eq_false_of_not_eq_true hstreaming)
      refine ⟨h.toUndisturbed.answer _ _, ?_⟩
      rcases hstart with rfl | rfl
      · exact .ended rfl (hdelivered.againChunk hend) hbuffered hok
      · exact .ended rfl (hdelivered.againBody hend) hbuffered hok
  | reading call' point left rest hsome =>
    exact absurd (hsome.symm.trans hcall) (Option.some_ne_none _)

/-- The channel holds these events now. -/
def taken (events : List HttpRequestBodyEvent) (s : BodyTransfer) : BodyTransfer :=
  { s with exchange := { s.exchange with body := events } }

theorem Undisturbed.taken (h : s.Undisturbed) (events : List HttpRequestBodyEvent) :
    (s.taken events).Undisturbed :=
  ⟨h.holder, h.token, h.producerToken, h.dropped⟩

/-- What a call gets with an event. -/
def received : HttpRequestBodyEvent → Except HttpBridgeError (Option Bytes)
  | .chunk chunk => .ok (some chunk)
  | .complete ending => ending.map fun _ => none

theorem Undisturbed.poll_cancelled (h : s.Undisturbed) (hcall : s.call = some (call, .cancelled)) :
    s.poll = { s with call := some (call, .channel) } := by
  have htoken : ¬s.cancelled = true := by
    rw [h.token]
    exact Bool.false_ne_true
  unfold BodyTransfer.poll
  rw [hcall]
  exact if_neg htoken

theorem poll_event {event : HttpRequestBodyEvent} {events : List HttpRequestBodyEvent}
    (hcall : s.call = some (call, .channel)) (hbody : s.exchange.body = event :: events) :
    s.poll = (s.taken events).answer call (received event) := by
  unfold BodyTransfer.poll
  rw [hcall]
  rw [hbody]
  cases event with
  | chunk => rfl
  | complete ending =>
    cases ending with
    | ok | error => rfl

theorem poll_dropped (hcall : s.call = some (call, .channel)) (hbody : s.exchange.body = [])
    (hdropped : s.writerDropped = true) :
    s.poll = s.answer call (.error (.transport "HTTP request body sender closed")) := by
  unfold BodyTransfer.poll
  rw [hcall]
  rw [hbody]
  exact if_pos hdropped

theorem poll_empty (hcall : s.call = some (call, .channel)) (hbody : s.exchange.body = [])
    (hdropped : ¬s.writerDropped = true) : s.poll = s.await call := by
  unfold BodyTransfer.poll
  rw [hcall]
  rw [hbody]
  exact if_neg hdropped

theorem poll_of_none (hcall : s.call = none) : s.poll = s := by
  unfold BodyTransfer.poll
  rw [hcall]

/-- While a call reads the stream, the writer is not dropped before something is in the channel. -/
theorem Undisturbed.not_dropped (h : s.Undisturbed)
    (hremaining : s.remaining = scriptEvents rest ending)
    (hbody : s.exchange.body = []) : ¬s.writerDropped = true := by
  intro hdropped
  unfold remaining at hremaining
  rw [hbody, BodyProducer.events_of_load (h.dropped hdropped)] at hremaining
  exact scriptEvents_ne_nil _ _ hremaining.symm

theorem Sound.poll (h : s.Sound chunks ending) : s.poll.Sound chunks ending := by
  have hkept := h.toUndisturbed
  cases h.phase with
  | between _ hcall | ended hcall =>
    rw [poll_of_none hcall]
    exact h
  | reading call point left rest hcall hdelivered hbuffered hstreaming hremaining hreading =>
    have hstay : ∀ point,
        ({ s with call := some (call, point) } : BodyTransfer).Sound chunks ending :=
      fun point => ⟨⟨h.holder, h.token, h.producerToken, h.dropped⟩,
        .reading call point left rest rfl hdelivered hbuffered hstreaming hremaining hreading⟩
    cases point with
    | cancelled =>
      rw [hkept.poll_cancelled hcall]
      exact hstay .channel
    | channel =>
      rcases hbody : s.exchange.body with _ | ⟨event, events⟩
      · rw [poll_empty hcall hbody (hkept.not_dropped hremaining hbody)]
        exact hstay .cancelled
      rw [poll_event hcall hbody]
      unfold remaining at hremaining
      rw [hbody, cons_append] at hremaining
      refine ⟨(hkept.taken events).answer _ _, ?_⟩
      cases rest with
      | nil =>
        obtain ⟨rfl, -⟩ := List.cons.inj hremaining
        have hok : s.reader.streaming = false → ending = .ok () := fun hnot =>
          absurd (hstreaming.symm.trans hnot) Bool.true_eq_false.mp
        exact .answer_end hdelivered hbuffered hok hreading
      | cons =>
        obtain ⟨rfl, hevents⟩ := List.cons.inj hremaining
        exact .answer_chunk hdelivered hbuffered hstreaming hevents hreading

/-- What a reader has in front of it depends on what is on its way. -/
theorem Phase.of_remaining (h : Phase chunks ending s) (hcall : t.call = s.call)
    (hresults : t.results = s.results) (hreader : t.reader = s.reader)
    (hremaining : t.remaining = s.remaining) : Phase chunks ending t := by
  cases h with
  | between left hnone hdelivered hahead =>
    obtain ⟨rest, hleft, hstream, hbody⟩ := hahead.split
    rw [← hreader] at hleft hstream hbody
    exact .between left (hcall.trans hnone) (hresults ▸ hdelivered)
      ⟨rest, hleft, fun hstreaming => hremaining.trans (hstream hstreaming), hbody⟩
  | ended hnone hdelivered hbuffered hok =>
    rw [← hreader] at hbuffered hok
    exact .ended (hcall.trans hnone) (hresults ▸ hdelivered) hbuffered hok
  | reading call point left rest hsome hdelivered hbuffered hstreaming hevents hreading =>
    rw [← hreader] at hbuffered hstreaming
    exact .reading call point left rest (hcall.trans hsome) (hresults ▸ hdelivered) hbuffered
      hstreaming (hremaining.trans hevents) hreading

/-- What the producer does leaves what is on its way. -/
theorem Undisturbed.sends_produce (h : s.Undisturbed) :
    s.producer.Sends s.exchange s.produce.producer s.produce.exchange := by
  unfold produce
  rw [h.producerToken]
  exact BodyProducer.sends_step s.producer h.holder

theorem Undisturbed.remaining_produce (h : s.Undisturbed) : s.produce.remaining = s.remaining := by
  unfold remaining
  generalize hproducer : s.produce.producer = producer
  generalize hexchange : s.produce.exchange = exchange
  have hsends := h.sends_produce
  rw [hproducer, hexchange] at hsends
  cases hsends with
  | skipped hevents | moved hevents => rw [hevents]
  | sent event hevents hload hroom =>
    rw [hevents, hroom]
    rfl

theorem Undisturbed.produce (h : s.Undisturbed) : s.produce.Undisturbed := by
  have hsends := h.sends_produce
  refine ⟨?_, h.token, h.producerToken, fun hdropped => ?_⟩
  · generalize s.produce.producer = producer at hsends
    generalize hexchange : s.produce.exchange = exchange at hsends
    cases hsends with
    | skipped | moved | sent => exact h.holder
  · have hload := h.dropped hdropped
    generalize s.produce.producer = producer at hsends ⊢
    generalize s.produce.exchange = exchange at hsends
    cases hsends with
    | skipped hevents hless => exact absurd hless (hload ▸ Nat.not_lt_zero _)
    | moved hevents hsame hroom => exact hsame.trans hload
    | sent event hevents hless hroom => exact absurd hless (hload ▸ Nat.not_lt_zero _)

theorem Sound.produce (h : s.Sound chunks ending) : s.produce.Sound chunks ending :=
  ⟨h.toUndisturbed.produce, h.phase.of_remaining rfl rfl rfl h.toUndisturbed.remaining_produce⟩

theorem Sound.step (h : s.Sound chunks ending) (step : BodyStep) (hcareful : s.Careful step) :
    (s.step step).Sound chunks ending := by
  cases step with
  | call call =>
    have hbegin : ∀ call, call = .chunk ∨ call = .toEnd [] →
        (if s.call.isSome then s else s.begin call).Sound chunks ending := by
      intro call hstart
      split
      · exact h
      next hcall => exact h.begin (Option.not_isSome_iff_eq_none.1 hcall) hcareful hstart
    cases call with
    | chunk => exact hbegin .chunk (.inl rfl)
    | toEnd => exact hbegin (.toEnd []) (.inr rfl)
  | poll => exact h.poll
  | produce => exact h.produce
  | dropWriter =>
    have hstep : s.step .dropWriter =
        if s.producer.isFinished then { s with writerDropped := true } else s := rfl
    rw [hstep]
    split
    next hfinished =>
      refine ⟨⟨h.holder, h.token, h.producerToken, fun _ => ?_⟩,
        h.phase.of_remaining rfl rfl rfl rfl⟩
      exact BodyProducer.load_of_isFinished hfinished
    · exact h
  | cancel | cancelProducer => exact hcareful.elim

theorem sound_of_run {body : Bytes} {stream : Option BodyScript}
    (hrun : Run step Careful (start body stream) s) :
    s.Sound (bodyChunks body stream) (bodyEnding stream) :=
  hrun.invariant (sound_start body stream) fun _ step h hcareful => h.step step hcareful

/-! ### A call returns -/

/-- A call at the check of the token has one step more to make. -/
def readRank : Option (BodyCall × ReadPoint) → ℕ
  | some (_, .cancelled) => 1
  | _ => 0

theorem readRank_le (call : Option (BodyCall × ReadPoint)) : readRank call ≤ 1 := by
  unfold readRank
  split <;> decide

/-- The steps to come: of the producer while the channel is empty, else of the reader. -/
def rank (s : BodyTransfer) : ℕ :=
  4 * (2 * s.producer.load + s.exchange.body.length) +
    if s.exchange.body = [] then s.producer.sendRank else readRank s.call

def helper (s : BodyTransfer) : BodyParty := if s.exchange.body = [] then .producer else .reader

theorem rank_lt (h : 2 * t.producer.load + t.exchange.body.length <
    2 * s.producer.load + s.exchange.body.length) : t.rank < s.rank := by
  have hextra : (if t.exchange.body = [] then t.producer.sendRank else readRank t.call) ≤ 1 := by
    split
    · exact BodyProducer.sendRank_le _
    · exact readRank_le _
  unfold rank
  omega

/-- A call that goes on after an answer has returned nothing. -/
theorem answer_cases (call : BodyCall) (result : Except HttpBridgeError (Option Bytes))
    (s : BodyTransfer) : (s.answer call result).call = none ∨
      ∃ body, s.answer call result = s.await (.toEnd body) := by
  cases call with
  | chunk => exact .inl rfl
  | toEnd body =>
    rcases result with error | chunk | chunk
    · exact .inl rfl
    · exact .inl rfl
    · exact .inr ⟨body ++ chunk, rfl⟩

/-- A call reads what is left of the stream. -/
theorem Sound.exists_remaining (h : s.Sound chunks ending) (hcall : ¬s.call = none) :
    ∃ call point rest, s.call = some (call, point) ∧ s.remaining = scriptEvents rest ending := by
  cases h.phase with
  | between _ hnone | ended hnone => exact absurd hnone hcall
  | reading call point left rest hsome hdelivered hbuffered hstreaming hremaining hreading =>
    exact ⟨call, point, rest, hsome, hremaining⟩

/-- A step of the reader that is not the last of its call. -/
theorem Undisturbed.poll_goes_on (h : s.Undisturbed) {point : ReadPoint}
    (hcall : s.call = some (call, point))
    (hremaining : s.remaining = scriptEvents rest ending) :
    s.poll.call = none ∨ s.poll.rank < s.rank ∨
      (s.poll.rank = s.rank ∧ s.poll.helper = s.helper ∧ s.helper = .producer) := by
  cases point with
  | cancelled =>
    rw [h.poll_cancelled hcall]
    refine .inr ?_
    unfold rank helper
    rw [hcall]
    split
    · exact .inr ⟨rfl, rfl, rfl⟩
    · exact .inl (Nat.lt_succ_self _)
  | channel =>
    rcases hbody : s.exchange.body with _ | ⟨event, events⟩
    · rw [poll_empty hcall hbody (h.not_dropped hremaining hbody)]
      refine .inr (.inr ?_)
      unfold rank helper await
      rw [if_pos hbody, if_pos hbody, if_pos hbody]
      exact ⟨rfl, rfl, rfl⟩
    · rw [poll_event hcall hbody]
      rcases answer_cases call (received event) (s.taken events) with hnone | ⟨body, hanswer⟩
      · exact .inl hnone
      · rw [hanswer]
        refine .inr (.inl (rank_lt ?_))
        rw [hbody, length_cons]
        exact Nat.lt_succ_self _

theorem Undisturbed.rank_produce (h : s.Undisturbed)
    (hremaining : s.remaining = scriptEvents rest ending) :
    s.produce.rank < s.rank ∨
      (s.produce.rank = s.rank ∧ s.produce.helper = s.helper ∧ s.helper = .reader) := by
  have hsends := h.sends_produce
  generalize hproducer : s.produce.producer = producer at hsends
  generalize hexchange : s.produce.exchange = exchange at hsends
  have hlower : 2 * producer.load + exchange.body.length <
      2 * s.producer.load + s.exchange.body.length → s.produce.rank < s.rank := fun hless =>
    rank_lt (by rw [hproducer, hexchange]; exact hless)
  cases hsends with
  | skipped => exact .inl (hlower (by omega))
  | sent event hevents hload hroom =>
    refine .inl (hlower ?_)
    rw [hroom]
    show 2 * producer.load + 1 < 2 * s.producer.load + 0
    omega
  | moved hevents hload hroom =>
    unfold rank helper
    rw [hproducer, hexchange, hload]
    by_cases hbody : s.exchange.body = []
    · rw [if_pos hbody, if_pos hbody]
      rcases hroom hbody with hless | hzero
      · exact .inl (Nat.add_lt_add_left hless _)
      · -- a producer that has sent everything has sent the end
        unfold remaining at hremaining
        rw [hbody, BodyProducer.events_of_load hzero] at hremaining
        exact absurd hremaining.symm (scriptEvents_ne_nil _ _)
    · rw [if_neg hbody, if_neg hbody, if_neg hbody]
      exact .inr ⟨rfl, rfl, rfl⟩

/-- A call has a rank. -/
def ranking (chunks : List Bytes) (ending : Except HttpBridgeError Unit) :
    Ranking turn (fun s => s.Sound chunks ending) fun s => s.call = none where
  rank := rank
  helper := helper
  keeps := by
    rintro s party h -
    cases party with
    | producer => exact h.produce
    | reader => exact h.poll
  descends := by
    rintro s party h hcall
    obtain ⟨call, point, rest, hsome, hremaining⟩ := h.exists_remaining hcall
    cases party with
    | producer =>
      rcases h.toUndisturbed.rank_produce hremaining with hless | ⟨hrank, hhelper, hreader⟩
      · exact .inr (.inl hless)
      · refine .inr (.inr ⟨hrank, hhelper, ?_⟩)
        rw [hreader]
        exact BodyParty.noConfusion
    | reader =>
      rcases h.toUndisturbed.poll_goes_on hsome hremaining with
        hnone | hless | ⟨hrank, hhelper, hproducer⟩
      · exact .inl hnone
      · exact .inr (.inl hless)
      · refine .inr (.inr ⟨hrank, hhelper, ?_⟩)
        rw [hproducer]
        exact BodyParty.noConfusion

end Careful

/-! ### The end is reported once -/

section Once

variable {s : BodyTransfer}

/-- The reports of the end that have been made and that are on their way. -/
def ends (s : BodyTransfer) : ℕ := s.results.countP BodyResult.isEnd + endEvents s.remaining

theorem ends_finish (result : BodyResult) (s : BodyTransfer) :
    (s.finish result).ends = s.ends + if result.isEnd then 1 else 0 := by
  unfold ends finish
  rw [countP_append, countP_singleton]
  exact Nat.add_right_comm _ _ _

/-- A call reports the end only of an answer that does. -/
theorem ends_answer_le (call : BodyCall) (event : HttpRequestBodyEvent) (s : BodyTransfer) :
    (s.answer call (received event)).ends ≤ s.ends + if event.isEnd then 1 else 0 := by
  rcases event with chunk | ending | ending <;> rcases call with _ | body
  all_goals first | exact le_of_eq (ends_finish _ s) | exact Nat.le_add_right _ _

theorem ends_answer_error (call : BodyCall) (error : HttpBridgeError) (s : BodyTransfer) :
    (s.answer call (.error error)).ends = s.ends := by
  cases call with
  | chunk | toEnd => exact ends_finish _ s

/-- A stream reports its end once at most. -/
structure Once (s : BodyTransfer) : Prop where
  streaming : s.reader.streaming = true
  holder : s.exchange.holder = .transport
  ends_le : s.ends ≤ 1

theorem Once.answer (h : s.Once) {call : BodyCall} {result : Except HttpBridgeError (Option Bytes)}
    (hends : (s.answer call result).ends ≤ 1) : (s.answer call result).Once := by
  have hfinish : ∀ {result}, (s.finish result).ends ≤ 1 → (s.finish result).Once := fun hends =>
    ⟨h.streaming, h.holder, hends⟩
  cases call with
  | chunk => exact hfinish hends
  | toEnd =>
    rcases result with error | chunk | chunk
    · exact hfinish hends
    · exact hfinish hends
    · exact ⟨h.streaming, h.holder, hends⟩

theorem Once.begin (h : s.Once) (call : BodyCall) : (s.begin call).Once := by
  have hread : ∀ {s : BodyTransfer}, s.Once → ∀ call, (s.readChunk call).Once := by
    intro s h call
    unfold readChunk
    rw [if_pos h.streaming]
    exact ⟨h.streaming, h.holder, h.ends_le⟩
  unfold BodyTransfer.begin
  split
  · exact hread h call
  next buffered hbuffered =>
    cases call with
    | chunk => exact ⟨h.streaming, h.holder, (ends_finish _ s).trans_le h.ends_le⟩
    | toEnd body =>
      have hread' : ({ s with reader := { s.reader with buffered := none } } : BodyTransfer).Once :=
        ⟨h.streaming, h.holder, h.ends_le⟩
      exact hread hread' (.toEnd (body ++ buffered))

theorem Once.poll (h : s.Once) : s.poll.Once := by
  have herror : ∀ call error, (s.answer call (.error error)).Once := fun call error =>
    h.answer ((ends_answer_error call error s).trans_le h.ends_le)
  rcases hcall : s.call with _ | ⟨call, _ | _⟩
  · rw [poll_of_none hcall]
    exact h
  · unfold BodyTransfer.poll
    rw [hcall]
    dsimp only
    split
    · exact herror _ _
    · exact ⟨h.streaming, h.holder, h.ends_le⟩
  · rcases hbody : s.exchange.body with _ | ⟨event, events⟩
    · by_cases hdropped : s.writerDropped = true
      · rw [poll_dropped hcall hbody hdropped]
        exact herror _ _
      · rw [poll_empty hcall hbody hdropped]
        exact ⟨h.streaming, h.holder, h.ends_le⟩
    · rw [poll_event hcall hbody]
      have hends : (s.taken events).ends + (if event.isEnd then 1 else 0) = s.ends := by
        unfold ends remaining
        rw [hbody, cons_append, show endEvents (event :: (events ++ s.producer.events)) =
          endEvents (events ++ s.producer.events) + if event.isEnd then 1 else 0 from countP_cons]
        exact Nat.add_assoc _ _ _
      have htaken : (s.taken events).Once :=
        ⟨h.streaming, h.holder, (Nat.le_add_right _ _).trans (hends.trans_le h.ends_le)⟩
      exact htaken.answer ((ends_answer_le call event _).trans (hends.trans_le h.ends_le))

theorem Once.step (h : s.Once) (step : BodyStep) : (s.step step).Once := by
  have hbegin : ∀ call, (if s.call.isSome then s else s.begin call).Once := by
    intro call
    split
    · exact h
    · exact h.begin call
  cases step with
  | call call =>
    cases call with
    | chunk => exact hbegin .chunk
    | toEnd => exact hbegin (.toEnd [])
  | poll => exact h.poll
  | produce =>
    obtain ⟨hholder, hends⟩ :=
      BodyProducer.endEvents_step_le s.producerCancelled s.producer h.holder
    exact ⟨h.streaming, hholder, (Nat.add_le_add_left hends _).trans h.ends_le⟩
  | dropWriter =>
    show (if s.producer.isFinished then { s with writerDropped := true } else s).Once
    split
    · exact ⟨h.streaming, h.holder, h.ends_le⟩
    · exact h
  | cancel | cancelProducer => exact ⟨h.streaming, h.holder, h.ends_le⟩

theorem once_start (body : Bytes) (script : BodyScript) : (start body (some script)).Once where
  streaming := rfl
  holder := rfl
  ends_le := (Nat.zero_add _).trans_le (endEvents_scriptEvents_le _ _)

end Once

variable {s : BodyTransfer}

theorem Sound.exists_delivered (h : s.Sound chunks ending) :
    ∃ left, Delivered chunks ending s.results left := by
  cases h.phase with
  | between _ _ hdelivered | ended _ hdelivered => exact ⟨_, hdelivered⟩
  | reading call point left rest hcall hdelivered hbuffered hstreaming hremaining hreading =>
    exact ⟨_, hdelivered⟩

/-- The reads of a body. In every run in which nothing is cancelled and no read is begun behind one
that has reported the end or the failure of a stream, they go through the chunks in order, report
the end or the failure behind them, and return whenever reader and producer are scheduled fairly.
Whatever the run, the end of a stream is reported once at most: a second read never returns it
again. -/
theorem endsCleanly (body : Bytes) (stream : Option BodyScript) :
    (∀ s, Run step Careful (start body stream) s →
      (∃ left, Delivered (bodyChunks body stream) (bodyEnding stream) s.results left) ∧
        ∀ schedule, Fair schedule → ∃ n, (runTo turn schedule s n).call = none) ∧
      ∀ script, stream = some script → ∀ s, Reach step (start body stream) s →
        s.results.countP BodyResult.isEnd ≤ 1 := by
  constructor
  · intro s hrun
    have hsound := sound_of_run hrun
    exact ⟨hsound.exists_delivered, fun schedule hfair =>
      (ranking _ _).eventually hfair hsound⟩
  · rintro script rfl s hrun
    have honce : s.Once := hrun.invariant (once_start body script) fun _ step h _ => h.step step
    exact (Nat.le_add_right _ _).trans honce.ends_le

/-- A call that waits for a writer with nothing to write. -/
structure Stuck (s : BodyTransfer) : Prop where
  call : ∃ point, s.call = some (.chunk, point)
  token : s.cancelled = false
  body : s.exchange.body = []
  producer : s.producer = .finished (.ok ())
  dropped : s.writerDropped = false

theorem Stuck.turn (h : s.Stuck) (party : BodyParty) : (s.turn party).Stuck := by
  cases party with
  | producer =>
    have hstep : s.producer.step s.producerCancelled s.exchange = (s.producer, s.exchange) := by
      rw [h.producer]
      rfl
    have hproduce : s.produce = s := by
      unfold produce
      rw [hstep]
    show s.produce.Stuck
    rw [hproduce]
    exact h
  | reader =>
    obtain ⟨point, hcall⟩ := h.call
    show s.poll.Stuck
    cases point with
    | cancelled =>
      have hpoll : s.poll = { s with call := some (.chunk, .channel) } := by
        unfold poll
        rw [hcall]
        exact if_neg (h.token ▸ Bool.false_ne_true)
      rw [hpoll]
      exact ⟨⟨.channel, rfl⟩, h.token, h.body, h.producer, h.dropped⟩
    | channel =>
      rw [poll_empty hcall h.body (h.dropped ▸ Bool.false_ne_true)]
      exact ⟨⟨.cancelled, rfl⟩, h.token, h.body, h.producer, h.dropped⟩

/-- The steps of a transport that reads an empty stream twice. -/
def readTwice : List BodyStep :=
  [.produce, .produce, .call .chunk, .poll, .poll, .call .chunk]

/-- Behind the end of an empty stream a second read fails, once the writer is gone, and never
returns before that. -/
theorem not_endsCleanly :
    ¬(∃ left, Delivered (bodyChunks [] (some ([], .ok ()))) (bodyEnding (some ([], .ok ())))
        (runAll step (start [] (some ([], .ok ())))
          (readTwice ++ [.dropWriter, .poll, .poll])).results
        left) ∧
      ∀ schedule n, (runTo turn schedule
        (runAll step (start [] (some ([], .ok ()))) readTwice) n).call ≠
        none := by
  constructor
  · rintro ⟨left, hdelivered⟩
    refine hdelivered.ne_error rfl (.transport "HTTP request body sender closed") ?_
    exact mem_cons_of_mem _ mem_cons_self
  · intro schedule n
    have hstuck : (runTo turn schedule
        (runAll step (start [] (some ([], .ok ()))) readTwice) n).Stuck := by
      induction n with
      | zero => exact ⟨⟨.cancelled, rfl⟩, rfl, rfl, rfl, rfl⟩
      | succ n ih => exact ih.turn _
    obtain ⟨point, hcall⟩ := hstuck.call
    rw [hcall]
    exact Option.some_ne_none _

end BodyTransfer

end WasmHost

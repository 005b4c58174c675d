import WasmHost.Core.UploadDevice

/-!
# Progress of an upload

Whether the three parties of an upload can block each other: the guest waits for the response, the
bridge thread for the end of the producer, and the producer for the next upload event. An upload is
settled (`Upload.Settled`) once its producer cannot come to wait for an event any more, and no step
of a thread unsettles it (`Upload.Settled.bridge`, `.produce`, `.transport`). A guest that waits for
the response of a settled upload is not part of a circle, so all depends on how it came to wait:
with its last event sent, or with the event given up because the run was cancelled.
-/

namespace WasmHost

open UploadSystem

namespace Exchange

variable {x y : Exchange} {limit : ℕ} {gone : Bool} {op : TransportOp}

/-- A request that is being submitted is still with its caller. -/
def Placed (x : Exchange) : Prop := ∀ point, x.caller = .submit point → x.holder = .caller

theorem placed_start : start.Placed := fun _ _ => rfl

theorem placed_finish (x : Exchange) (result : Except HttpBridgeError HttpResponse) :
    (x.finish result).Placed := fun _ h => nomatch h

theorem Polled.placed (h : x.Polled limit y) (hx : x.Placed) : y.Placed := by
  cases h with
  | moved caller h hplaced =>
    intro point hcaller
    obtain ⟨point, hsubmit⟩ := hplaced point hcaller
    exact hx point hsubmit
  | accepted _ h | received _ _ _ h => exact fun _ h => nomatch h
  | answered event rest result h hevent => exact placed_finish x result
  | failed => exact placed_finish x _

theorem Polled.holder_eq_nobody (h : x.Polled limit y) (hx : x.Placed)
    (hholder : x.holder = .nobody) : y.holder = .nobody := by
  cases h with
  | moved => exact hholder
  | accepted point h => simp [hx point h] at hholder
  | received => exact hholder
  | answered | failed => simp [finish, hholder]

theorem placed_transport (h : x.transport gone op = some y) (hx : x.Placed) : y.Placed := by
  intro point hcaller
  have hholder := hx point (caller_transport h ▸ hcaller)
  simp [transport, hholder] at h

theorem not_nobody_of_transport (h : x.transport gone op = some y) : x.holder ≠ .nobody := by
  intro hholder
  simp [transport, hholder] at h

end Exchange

/-! ### The loop of a writer -/

/-- What a step of the loop of a writer does. -/
theorem HttpRequestBodyWriter.sendEvent_cases (cancelled : Bool) (event : HttpRequestBodyEvent)
    (x : Exchange) (point : SendPoint) :
    (point = .cancelled ∧ cancelled = false ∧
      sendEvent cancelled event x point = (.again .channel, x)) ∨
    (point = .channel ∧ x.holder ≠ .nobody ∧
      sendEvent cancelled event x point = (.again .cancelled, x)) ∨
    (point = .channel ∧ x.holder ≠ .nobody ∧
      sendEvent cancelled event x point = (.done (.ok ()), { x with body := [event] })) ∨
    ∃ error, sendEvent cancelled event x point = (.done (.error error), x) := by
  cases point with
  | cancelled =>
    cases cancelled with
    | true => exact .inr (.inr (.inr ⟨_, rfl⟩))
    | false => exact .inl ⟨rfl, rfl, rfl⟩
  | channel =>
    unfold sendEvent
    rcases x.trySendBody_cases event with ⟨h, -⟩ | ⟨h, hholder, -⟩ | ⟨h, hholder⟩
    · exact .inr (.inr (.inr ⟨_, by rw [h]⟩))
    · exact .inr (.inr (.inl ⟨rfl, hholder, by rw [h]⟩))
    · exact .inr (.inl ⟨rfl, hholder, by rw [h]⟩)

/-! ### Settled uploads -/

/-- The event that ends the closure of the producer. -/
def HttpBridgeDeviceUploadEvent.isLast : HttpBridgeDeviceUploadEvent → Bool
  | .chunk _ => false
  | .finish => true
  | .fail _ => true

/-- An event that the producer has to write. -/
def HttpBridgeDeviceUploadEvent.isWritten : HttpBridgeDeviceUploadEvent → Bool
  | .chunk bytes => bytes ≠ []
  | .finish => false
  | .fail _ => false

/-- The producer hands an event on. -/
def UploadProducer.isWriting : UploadProducer → Bool
  | .writing _ _ => true
  | _ => false

namespace Upload

/-- The producer cannot come to wait for an event any more: its last event is queued; or its closure
has returned; or it has a chunk to write to a closed receiver, or one to begin with when it is
cancelled. -/
inductive Settled (u : Upload) : Prop
  | queued (event : HttpBridgeDeviceUploadEvent) (h : event ∈ u.events)
      (hlast : event.isLast = true)
  | ended (h : u.producer.isReceiver = false)
  | refused (hholder : u.exchange.holder = .nobody)
      (h : u.producer.isWriting = true ∨ ∃ event ∈ u.events, event.isWritten = true)
  | cancelled (hcancelled : u.producerCancelled = true)
      (h : (∃ chunk, u.producer = .writing chunk .cancelled) ∨
        ∃ event ∈ u.events, event.isWritten = true)

variable {u v : Upload} {codec : DeviceCodec} {cancelled : Bool} {room : TrySend}

/-- A settled upload has no producer that waits for an event. -/
theorem Settled.not_waiting (h : u.Settled) (hproducer : u.producer = .receiving)
    (hevents : u.events = []) : False := by
  cases h with
  | queued event h hlast => simp [hevents] at h
  | ended h => simp [hproducer, UploadProducer.isReceiver] at h
  | refused hholder h => simp [hproducer, hevents, UploadProducer.isWriting] at h
  | cancelled hcancelled h => simp [hproducer, hevents] at h

/-- A step that leaves the producer and its queue alone does not unsettle an upload. -/
theorem Settled.of_eq (h : u.Settled) (hproducer : v.producer = u.producer)
    (hevents : v.events = u.events)
    (hholder : u.exchange.holder = .nobody → v.exchange.holder = .nobody)
    (hcancelled : u.producerCancelled = true → v.producerCancelled = true) : v.Settled := by
  cases h with
  | queued event h hlast => exact .queued event (hevents ▸ h) hlast
  | ended h => exact .ended (hproducer ▸ h)
  | refused hnobody h => exact .refused (hholder hnobody) (hproducer ▸ hevents ▸ h)
  | cancelled hc h => exact .cancelled (hcancelled hc) (hproducer ▸ hevents ▸ h)

/-- Nor does another event in the queue. -/
theorem Settled.push (h : u.Settled) (event : HttpBridgeDeviceUploadEvent) :
    { u with events := u.events ++ [event] }.Settled := by
  have hmem (e : HttpBridgeDeviceUploadEvent) (he : e ∈ u.events) : e ∈ u.events ++ [event] :=
    List.mem_append_left _ he
  cases h with
  | queued e h hlast => exact .queued e (hmem e h) hlast
  | ended h => exact .ended h
  | refused hnobody h =>
    exact .refused hnobody (h.imp_right fun ⟨e, he, hwritten⟩ => ⟨e, hmem e he, hwritten⟩)
  | cancelled hc h =>
    exact .cancelled hc (h.imp_right fun ⟨e, he, hwritten⟩ => ⟨e, hmem e he, hwritten⟩)

theorem Settled.bridge (hu : u.exchange.Placed) (h : u.Settled)
    (hv : u.bridge codec cancelled room = some v) : v.Settled := by
  unfold Upload.bridge at hv
  split at hv
  · cases hv
  split at hv
  next hwaiting =>
    obtain rfl := Option.some.inj hv
    exact h.of_eq rfl rfl (Exchange.polled_poll _ _ _ _ hwaiting |>.holder_eq_nobody hu) id
  · split at hv
    · split at hv
      · obtain rfl := Option.some.inj hv
        exact h.of_eq rfl rfl id id
      · cases hv
    · obtain rfl := Option.some.inj hv
      exact h.of_eq rfl rfl id fun _ => rfl

theorem Settled.transport {op : TransportOp} (h : u.Settled) (hv : u.transport op = some v) :
    v.Settled := by
  obtain ⟨exchange, hexchange, rfl⟩ := Option.map_eq_some_iff.1 hv
  exact h.of_eq rfl rfl (fun hholder => absurd hholder (Exchange.not_nobody_of_transport hexchange))
    id

theorem settled_endProducer (u : Upload) (result : Except HttpBridgeError Unit) :
    (u.endProducer result).Settled := .ended rfl

/-- A producer that takes a chunk from the queue. -/
theorem Settled.take {chunk : Bytes} {rest : List HttpBridgeDeviceUploadEvent} (h : u.Settled)
    (hproducer : u.producer = .receiving) (hevents : u.events = .chunk chunk :: rest) :
    if chunk = [] then { u with events := rest }.Settled
    else { u with producer := .writing chunk .cancelled, events := rest }.Settled := by
  -- an event with work in it that is not this chunk is still queued
  have hwritten (h : ∃ event ∈ u.events, event.isWritten = true) :
      chunk ≠ [] ∨ ∃ event ∈ rest, event.isWritten = true := by
    obtain ⟨event, hmem, hwritten⟩ := h
    rw [hevents] at hmem
    rcases List.mem_cons.1 hmem with rfl | hmem
    · exact .inl (by simpa [HttpBridgeDeviceUploadEvent.isWritten] using hwritten)
    · exact .inr ⟨event, hmem, hwritten⟩
  cases h with
  | queued event h hlast =>
    have hmem : event ∈ rest := by
      rw [hevents] at h
      rcases List.mem_cons.1 h with rfl | h
      · cases hlast
      · exact h
    split <;> exact .queued event hmem hlast
  | ended h => simp [hproducer, UploadProducer.isReceiver] at h
  | refused hholder h =>
    have h := hwritten (h.resolve_left (by simp [hproducer, UploadProducer.isWriting]))
    split
    next hempty => exact .refused hholder (.inr (h.resolve_left (not_not_intro hempty)))
    · exact .refused hholder (.inl rfl)
  | cancelled hcancelled h =>
    have h := hwritten (h.resolve_left (by simp [hproducer]))
    split
    next hempty => exact .cancelled hcancelled (.inr (h.resolve_left (not_not_intro hempty)))
    · exact .cancelled hcancelled (.inl ⟨chunk, rfl⟩)

/-- The producer itself: it takes events, writes a chunk or fails to, and ends. -/
theorem Settled.produce (h : u.Settled) (hv : u.produce = some v) : v.Settled := by
  unfold Upload.produce at hv
  split at hv
  next hproducer =>
    split at hv
    next chunk rest hevents =>
      have htake := h.take hproducer hevents
      split at hv
      next hempty =>
        obtain rfl := Option.some.inj hv
        simpa only [hempty, if_true] using htake
      next hempty =>
        obtain rfl := Option.some.inj hv
        simpa only [hempty, if_false] using htake
    · exact Option.some.inj hv ▸ settled_endProducer u _
    · exact Option.some.inj hv ▸ settled_endProducer u _
    next hevents => exact (h.not_waiting hproducer hevents).elim
  next chunk point hproducer =>
    rcases HttpRequestBodyWriter.sendEvent_cases u.producerCancelled (.chunk chunk) u.exchange point
      with ⟨-, hcancelled, hsend⟩ | ⟨-, hholder, hsend⟩ | ⟨rfl, hholder, hsend⟩ | ⟨error, hsend⟩
    · -- the check of a producer that is not cancelled
      rw [hsend] at hv
      obtain rfl := Option.some.inj hv
      cases h with
      | queued event h hlast => exact .queued event h hlast
      | ended h => simp [hproducer, UploadProducer.isReceiver] at h
      | refused hnobody h => exact .refused hnobody (.inl rfl)
      | cancelled hc h => simp [hcancelled] at hc
    · -- a full queue
      rw [hsend] at hv
      obtain rfl := Option.some.inj hv
      cases h with
      | queued event h hlast => exact .queued event h hlast
      | ended h => simp [hproducer, UploadProducer.isReceiver] at h
      | refused hnobody h => exact absurd hnobody hholder
      | cancelled hc h => exact .cancelled hc (.inl ⟨chunk, rfl⟩)
    · -- the chunk is written, and the producer goes back to its queue
      rw [hsend] at hv
      obtain rfl := Option.some.inj hv
      cases h with
      | queued event h hlast => exact .queued event h hlast
      | ended h => simp [hproducer, UploadProducer.isReceiver] at h
      | refused hnobody h => exact absurd hnobody hholder
      | cancelled hc h => exact .cancelled hc (.inr (h.resolve_left (by simp [hproducer])))
    · rw [hsend] at hv
      exact Option.some.inj hv ▸ settled_endProducer _ _
  next result point hproducer =>
    split at hv
    · exact Option.some.inj hv ▸ .ended rfl
    · exact Option.some.inj hv ▸ .ended rfl
  · cases hv

theorem placed_bridge (hu : u.exchange.Placed) (hv : u.bridge codec cancelled room = some v) :
    v.exchange.Placed := by
  unfold Upload.bridge at hv
  split at hv
  · cases hv
  split at hv
  next hwaiting =>
    obtain rfl := Option.some.inj hv
    exact (Exchange.polled_poll _ _ _ _ hwaiting).placed hu
  · split at hv
    · split at hv
      · exact Option.some.inj hv ▸ hu
      · cases hv
    · exact Option.some.inj hv ▸ hu

theorem placed_sendEvent {x : Exchange} (hx : x.Placed) (cancelled : Bool)
    (event : HttpRequestBodyEvent) (point : SendPoint) :
    (HttpRequestBodyWriter.sendEvent cancelled event x point).2.Placed := by
  rcases HttpRequestBodyWriter.sendEvent_cases cancelled event x point with
    ⟨-, -, h⟩ | ⟨-, -, h⟩ | ⟨-, -, h⟩ | ⟨error, h⟩
  · exact h ▸ hx
  · exact h ▸ hx
  · exact h ▸ hx
  · exact h ▸ hx

/-- The producer leaves the exchange alone, or sends an event. -/
theorem exchange_produce (hv : u.produce = some v) :
    v.response = u.response ∧ (v.exchange = u.exchange ∨ ∃ event point, v.exchange =
      (HttpRequestBodyWriter.sendEvent u.producerCancelled event u.exchange point).2) := by
  unfold Upload.produce at hv
  split at hv
  · split at hv
    · split at hv <;> exact Option.some.inj hv ▸ ⟨rfl, .inl rfl⟩
    · exact Option.some.inj hv ▸ ⟨rfl, .inl rfl⟩
    · exact Option.some.inj hv ▸ ⟨rfl, .inl rfl⟩
    · split at hv
      · exact Option.some.inj hv ▸ ⟨rfl, .inl rfl⟩
      · cases hv
  next chunk point _ =>
    split at hv
    all_goals
      next h => exact Option.some.inj hv ▸ ⟨rfl, .inr ⟨.chunk chunk, point, h ▸ rfl⟩⟩
  next result point _ =>
    split at hv
    all_goals
      next h => exact Option.some.inj hv ▸ ⟨rfl, .inr ⟨.complete result, point, h ▸ rfl⟩⟩
  · cases hv

theorem placed_produce (hu : u.exchange.Placed) (hv : u.produce = some v) :
    v.exchange.Placed := by
  obtain ⟨-, h | ⟨event, point, h⟩⟩ := exchange_produce hv
  · exact h ▸ hu
  · exact h ▸ placed_sendEvent hu u.producerCancelled event point

end Upload

/-! ### The device and its upload -/

/-- The event that a call of the guest sends. -/
def AfterSend.Sends : AfterSend → HttpBridgeDeviceUploadEvent → Prop
  | .chunkFrame, event => ∃ bytes, event = .chunk bytes
  | .endFrame, event => event = .finish
  | .failFrame, event => ∃ error, event = .fail error
  | .read _, event => ∃ error, event = .fail error

namespace UploadSystem

/-- What holds of the device and the threads behind it, wherever the guest stands. -/
structure Kept (s : UploadSystem) : Prop where
  placed : ∀ u, s.upload = some u → u.exchange.Placed
  active : s.device.upload.isSome = true → s.upload.isSome = true
  /-- The response of a closed upload is on its way. -/
  closed : s.device.upload = some ⟨true⟩ → s.device.response = none →
    ∀ u, s.upload = some u → u.Settled

/-- What holds of the guest. -/
def GuestKept (s : UploadSystem) : Prop :=
  match s.guest with
  | .running _ => True
  | .sending event _ next => s.upload.isSome = true ∧ next.Sends event
  | .awaiting _ => ∃ u, s.upload = some u ∧ u.Settled

variable {codec : DeviceCodec} {s t : UploadSystem} {event : HttpBridgeDeviceUploadEvent}
    {u : Upload}

theorem kept_opened (wallTime : Option ℕ) : (opened wallTime).Kept where
  placed _ h := nomatch h
  active h := nomatch h
  closed h := nomatch h

section

variable (hs : s.Kept)
include hs

/-- Only the parts of the state that `Kept` speaks about matter for it. -/
theorem Kept.of_eq (hupload : t.upload = s.upload) (hdevice : t.device.upload = s.device.upload)
    (hresponse : t.device.response = none → s.device.response = none) : t.Kept where
  placed := hupload ▸ hs.placed
  active := hupload ▸ hdevice ▸ hs.active
  closed hclosed hnone := hupload ▸ hs.closed (hdevice ▸ hclosed) (hresponse hnone)

theorem Kept.setResponseFromWrite (error : HttpBridgeError) :
    (s.setResponseFromWrite codec error).Kept :=
  hs.of_eq rfl rfl fun h => nomatch h

theorem Kept.wrote : s.wrote.Kept := hs.of_eq rfl rfl id

/-- Closing an upload that is settled, or after the device has a response. -/
theorem Kept.close
    (h : s.device.response = none → ∀ u, s.upload = some u → u.Settled) : s.close.Kept where
  placed := hs.placed
  active hsome := hs.active (by simpa [UploadSystem.close] using hsome)
  closed _ hnone := h hnone

theorem Kept.respond (room : ℕ) (response : Bytes) : (s.respond room response).Kept :=
  hs.of_eq rfl rfl fun h => nomatch h

variable {next : AfterSend}

/-- The return of `send_event_blocking`: an event that closes the upload has settled it. -/
theorem Kept.sent {result : Except HttpBridgeError Unit} (hsome : s.upload.isSome = true)
    (hsettled : (next = .endFrame → result = .ok ()) → next ≠ .chunkFrame →
      ∀ u, s.upload = some u → u.Settled) :
    (s.sent codec result next).Kept ∧ (s.sent codec result next).GuestKept := by
  cases next with
  | chunkFrame =>
    cases result with
    | ok => exact ⟨hs.wrote, trivial⟩
    | error error => exact ⟨(hs.setResponseFromWrite error).wrote, trivial⟩
  | endFrame =>
    cases result with
    | ok => exact ⟨(hs.close fun _ => hsettled (fun _ => rfl) nofun).wrote, trivial⟩
    | error error =>
      exact ⟨((hs.setResponseFromWrite error).close fun h => nomatch h).wrote, trivial⟩
  | failFrame => exact ⟨(hs.close fun _ => hsettled nofun nofun).wrote, trivial⟩
  | read =>
    obtain ⟨u, hu⟩ := Option.isSome_iff_exists.1 hsome
    exact ⟨hs.of_eq rfl rfl id, u, hu, hsettled nofun nofun u hu⟩

section

variable (hsome : s.upload.isSome = true)
include hsome

/-- The beginning of a call that sends an event. -/
theorem Kept.sending (event : HttpBridgeDeviceUploadEvent) (next : AfterSend) (h : next.Sends event)
    (point : SendPoint) :
    { s with guest := .sending event point next }.Kept ∧
      { s with guest := .sending event point next }.GuestKept :=
  ⟨hs.of_eq rfl rfl id, hsome, h⟩

theorem Kept.failUpload (state : HttpBridgeDeviceUploadState) (error : HttpBridgeError) :
    (s.failUpload state error).Kept ∧ (s.failUpload state error).GuestKept := by
  unfold UploadSystem.failUpload
  split
  · exact ⟨hs.wrote, trivial⟩
  · exact hs.sending hsome _ .failFrame ⟨error, rfl⟩ _

theorem Kept.sendUploadEvent (state : HttpBridgeDeviceUploadState) (h : next.Sends event)
    (hframe : next = .chunkFrame ∨ next = .endFrame) :
    (s.sendUploadEvent codec state event next).Kept ∧
      (s.sendUploadEvent codec state event next).GuestKept := by
  unfold UploadSystem.sendUploadEvent
  split
  · refine hs.sent hsome fun hok hchunk => ?_
    cases hok (hframe.resolve_left hchunk)
  · exact hs.sending hsome event next h _

theorem Kept.writeUploadFrame (state : HttpBridgeDeviceUploadState) (buf : Bytes) :
    (s.writeUploadFrame codec state buf).Kept ∧
      (s.writeUploadFrame codec state buf).GuestKept := by
  unfold UploadSystem.writeUploadFrame
  split
  · exact hs.failUpload hsome state _
  · split
    · exact hs.failUpload hsome state _
    next chunk _ => exact hs.sendUploadEvent hsome state ⟨chunk, rfl⟩ (.inl rfl)
  · exact hs.sendUploadEvent hsome state rfl (.inr rfl)
  · exact hs.failUpload hsome state _

end

theorem Kept.writeFirstFrame (buf : Bytes) :
    (s.writeFirstFrame codec buf).Kept ∧ (s.writeFirstFrame codec buf).GuestKept := by
  unfold UploadSystem.writeFirstFrame
  split
  · split
    next request limits _ =>
      refine ⟨⟨fun u hu => ?_, fun _ => rfl, fun h => nomatch h⟩, trivial⟩
      obtain rfl := Option.some.inj hu
      exact Exchange.placed_start
    · exact ⟨(hs.setResponseFromWrite _).wrote, trivial⟩
  · exact ⟨(hs.setResponseFromWrite _).wrote, trivial⟩
  · split
    · exact ⟨(hs.setResponseFromWrite _).wrote, trivial⟩
    · exact ⟨Kept.of_eq hs rfl rfl id, trivial⟩

/-- A device that gives up its response gives up the upload with it. -/
theorem Kept.forgetResponse : s.forgetResponse.Kept ∧
    (s.device.response.isSome = true → s.forgetResponse.device.upload = none) := by
  unfold UploadSystem.forgetResponse
  split
  · exact ⟨⟨fun _ h => (nomatch h), fun h => (nomatch h), fun h => nomatch h⟩, fun _ => rfl⟩
  next h => exact ⟨hs, fun h' => absurd h' h⟩

theorem Kept.write (buf : Bytes) :
    (s.write codec buf).Kept ∧ (s.write codec buf).GuestKept := by
  unfold UploadSystem.write
  split
  · exact ⟨hs.wrote, trivial⟩
  obtain ⟨hkept, hnone⟩ := hs.forgetResponse
  -- where a response is dropped no upload is left that it could have closed
  have hreset : { s.forgetResponse with device := { s.forgetResponse.device with
      response := none, resetResponseCursor := false, cursor := 0 } }.Kept := by
    refine ⟨hkept.placed, hkept.active, fun hclosed _ => ?_⟩
    cases hresponse : s.device.response with
    | none =>
      apply hkept.closed hclosed
      simp [UploadSystem.forgetResponse, hresponse]
    | some =>
      rw [hnone (by simp [hresponse])] at hclosed
      cases hclosed
  simp only
  split
  next state hstate => exact hreset.writeUploadFrame (hreset.active (by simp [hstate])) state buf
  · exact hreset.writeFirstFrame buf

theorem Kept.read (room : ℕ) (answer : Bytes) :
    (s.read room answer).Kept ∧ (s.read room answer).GuestKept := by
  unfold UploadSystem.read
  split
  next response hresponse =>
    split
    · exact ⟨hs.respond room response, trivial⟩
    · exact ⟨hs.of_eq rfl rfl id, trivial⟩
  next hresponse =>
    split
    · exact ⟨hs.respond room answer, trivial⟩
    next state hstate =>
      have hsome : s.upload.isSome = true := hs.active (by simp [hstate])
      have htaken : { s with device := { s.device with upload := none } }.Kept :=
        ⟨hs.placed, fun h => (nomatch h), fun h => nomatch h⟩
      simp only
      split
      next hclosed =>
        obtain ⟨u, hu⟩ := Option.isSome_iff_exists.1 hsome
        refine ⟨htaken.of_eq rfl rfl id, u, hu, hs.closed ?_ hresponse u hu⟩
        obtain ⟨closed⟩ := state
        obtain rfl : closed = true := hclosed
        exact hstate
      · exact htaken.sending hsome _ (.read room) ⟨_, rfl⟩ _

/-! ### Steps of a system -/

/-- In this step the guest gives up an event that would end its upload, because the run is
cancelled. -/
def GivesUp (s : UploadSystem) (step : Step) : Prop :=
  step = .goOn ∧ s.cancelled = true ∧
    ∃ error next, s.guest = .sending (.fail error) .cancelled next

/-- The guest gives up its event only in an upload whose producer cannot come to wait for it. -/
def Admissible (s : UploadSystem) (step : Step) : Prop :=
  s.GivesUp step → ∀ u, s.upload = some u → u.Settled

/-- What is given up would have closed the upload, so the guest goes on as if it had been sent. -/
theorem Kept.goOn (hguest : s.GuestKept) (hok : s.Admissible .goOn)
    (h : s.goOn codec = some t) : t.Kept ∧ t.GuestKept := by
  unfold UploadSystem.goOn at h
  unfold GuestKept at hguest
  split at h
  next event point next u hcall hu =>
    rw [hcall] at hguest
    obtain ⟨hsome, hsends⟩ := hguest
    split at h
    · split at h
      next hcancelled =>
        obtain rfl := Option.some.inj h
        refine hs.sent hsome fun hend hchunk u hu => ?_
        cases next with
        | chunkFrame => exact absurd rfl hchunk
        | endFrame => cases hend rfl
        | failFrame | read =>
          obtain ⟨error, rfl⟩ := hsends
          exact hok ⟨rfl, hcancelled, error, _, hcall⟩ u hu
      · obtain rfl := Option.some.inj h
        exact hs.sending hsome event next hsends .channel
    · split at h
      next hreceiver =>
        obtain rfl := Option.some.inj h
        refine hs.sent hsome fun _ _ v hv => ?_
        obtain rfl := Option.some.inj (hu.symm.trans hv)
        exact .ended (by simpa using hreceiver)
      · split at h
        · obtain rfl := Option.some.inj h
          -- the event is in the queue
          have hpushed :
              { s with upload := some { u with events := u.events ++ [event] } }.Kept := by
            refine ⟨fun v hv => ?_, fun _ => rfl, fun hclosed hnone v hv => ?_⟩
            · obtain rfl := Option.some.inj hv
              exact hs.placed u hu
            · obtain rfl := Option.some.inj hv
              exact (hs.closed hclosed hnone u hu).push event
          refine hpushed.sent rfl fun _ hchunk v hv => ?_
          obtain rfl := Option.some.inj hv
          refine .queued event (List.mem_append_right _ (List.mem_singleton_self event)) ?_
          cases next with
          | chunkFrame => exact absurd rfl hchunk
          | endFrame =>
            obtain rfl := hsends
            rfl
          | failFrame | read =>
            obtain ⟨error, rfl⟩ := hsends
            rfl
        · obtain rfl := Option.some.inj h
          exact hs.sending hsome event next hsends .cancelled
  next room u hcall hu =>
    split at h
    next response _ =>
      obtain rfl := Option.some.inj h
      refine ⟨⟨fun v hv => ?_, fun _ => rfl, fun _ hnone => nomatch hnone⟩, trivial⟩
      obtain rfl := Option.some.inj hv
      exact hs.placed u hu
    · cases h
  · cases h

end

/-- A step of the threads that does not unsettle the upload. -/
theorem Kept.onUpload {f : Upload → Option Upload} (hs : s.Kept) (hguest : s.GuestKept)
    (hplaced : ∀ u v, u.exchange.Placed → f u = some v → v.exchange.Placed)
    (hsettled : ∀ u v, u.exchange.Placed → u.Settled → f u = some v → v.Settled)
    (h : s.onUpload f = some t) : t.Kept ∧ t.GuestKept := by
  unfold UploadSystem.onUpload at h
  split at h
  next u hu =>
    obtain ⟨v, hv, rfl⟩ := Option.map_eq_some_iff.1 h
    have hplace := hs.placed u hu
    refine ⟨⟨fun w hw => ?_, fun _ => rfl, fun hclosed hnone w hw => ?_⟩, ?_⟩
    · obtain rfl := Option.some.inj hw
      exact hplaced u v hplace hv
    · obtain rfl := Option.some.inj hw
      exact hsettled u v hplace (hs.closed hclosed hnone u hu) hv
    · unfold GuestKept at hguest ⊢
      cases hcall : s.guest with
      | running => trivial
      | sending =>
        rw [hcall] at hguest
        exact ⟨rfl, hguest.2⟩
      | awaiting =>
        rw [hcall] at hguest
        obtain ⟨w, hw, hsettle⟩ := hguest
        obtain rfl := Option.some.inj (hu.symm.trans hw)
        exact ⟨v, rfl, hsettled u v hplace hsettle hv⟩
  · cases h

theorem Kept.step? (hs : s.Kept) (hguest : s.GuestKept) {event : Step} (hok : s.Admissible event)
    (h : s.step? codec event = some t) : t.Kept ∧ t.GuestKept := by
  cases event with
  | write buf =>
    simp only [UploadSystem.step?, call] at h
    split at h
    · exact Option.some.inj h ▸ hs.write buf
    · cases h
  | read room answer =>
    simp only [UploadSystem.step?, call] at h
    split at h
    · exact Option.some.inj h ▸ hs.read room answer
    · cases h
  | seek =>
    simp only [UploadSystem.step?, call] at h
    split at h
    · exact Option.some.inj h ▸ ⟨hs.of_eq rfl rfl id, trivial⟩
    · cases h
  | goOn => exact hs.goOn hguest hok h
  | bridge =>
    exact hs.onUpload hguest (fun u v hu hv => Upload.placed_bridge hu hv)
      (fun u v hu hsettle hv => hsettle.bridge hu hv) h
  | produce =>
    exact hs.onUpload hguest (fun u v hu hv => Upload.placed_produce hu hv)
      (fun u v _ hsettle hv => hsettle.produce hv) h
  | transport =>
    refine hs.onUpload hguest (fun u v hu hv => ?_) (fun u v _ hsettle hv => hsettle.transport hv) h
    obtain ⟨exchange, hexchange, rfl⟩ := Option.map_eq_some_iff.1 hv
    exact Exchange.placed_transport hexchange hu
  | cancel => exact Option.some.inj h ▸ ⟨hs.of_eq rfl rfl id, hguest⟩
  | expire =>
    refine hs.onUpload hguest (fun u v hu hv => ?_) (fun u v _ hsettle hv => ?_) h
    · split at hv
      · exact Option.some.inj hv ▸ hu
      · cases hv
    · split at hv
      · exact Option.some.inj hv ▸ hsettle.of_eq rfl rfl id id
      · cases hv

/-! ### Circular waits -/

/-- The guest waits for the response, the bridge thread for the end of the producer, and the
producer for an upload event. -/
def CircularWait (s : UploadSystem) : Prop :=
  ∃ room u result, s.guest = .awaiting room ∧ s.upload = some u ∧ u.response = none ∧
    u.exchange.result? = some result ∧ u.producerCancelled = true ∧ u.producer = .receiving ∧
    u.events = [] ∧ u.senderGone = false

/-- None of the three can take a step then. -/
theorem CircularWait.blocked (h : s.CircularWait) {event : Step} (hparty : event.byParty = true) :
    s.step? codec event = none := by
  obtain ⟨room, u, result, hguest, hu, hresponse, hresult, hcancelled, hproducer, hevents,
    hsender⟩ :=
    h
  cases event with
  | write | read | seek => simp [step?, call, hguest]
  | goOn => simp [step?, goOn, hguest, hu, hresponse]
  | bridge =>
    simp [step?, onUpload, hu, Upload.bridge, hresponse, hresult, hcancelled, hproducer]
  | produce =>
    simp [step?, onUpload, hu, Upload.produce, hproducer, hevents, hsender]
  | transport | cancel | expire => cases hparty

/-- No circular wait, and a party that can take a step as long as the guest has no response. -/
def Progresses (codec : DeviceCodec) (s : UploadSystem) : Prop :=
  ¬ s.CircularWait ∧
    (s.device.response = none → ∃ event : Step, event.byParty = true ∧
      (s.step? codec event).isSome = true)

/-- A producer that is not at its end and has something to do can take a step. -/
theorem isSome_produce (hfinished : u.producer ≠ .finished)
    (hreceiving : u.producer = .receiving → u.events ≠ []) : u.produce.isSome = true := by
  unfold Upload.produce
  split
  next hproducer =>
    split
    · split <;> rfl
    · rfl
    · rfl
    next hevents => exact absurd hevents (hreceiving hproducer)
  · split <;> rfl
  · split <;> rfl
  next hproducer => exact absurd hproducer hfinished

/-- A guest in the loop of `send_event_blocking` is never blocked. -/
theorem isSome_goOn_of_sending {point : SendPoint} (hguest : s.guest = .sending event point next)
    (hu : s.upload = some u) : (s.goOn codec).isSome = true := by
  unfold goOn
  rw [hguest, hu]
  cases point with
  | cancelled =>
    simp only
    split <;> rfl
  | channel =>
    simp only
    split
    · rfl
    · split <;> rfl

/-- A guest that waits for a settled upload does not wait in vain. -/
theorem GuestKept.progresses (hguest : s.GuestKept) : s.Progresses codec := by
  unfold GuestKept at hguest
  constructor
  · rintro ⟨room, u, result, hcall, hu, -, -, -, hproducer, hevents, -⟩
    rw [hcall] at hguest
    obtain ⟨v, hv, hsettled⟩ := hguest
    obtain rfl := Option.some.inj (hu.symm.trans hv)
    exact hsettled.not_waiting hproducer hevents
  intro _
  cases hcall : s.guest with
  | running => exact ⟨.read 0 [], rfl, by simp [step?, call, hcall]⟩
  | sending =>
    rw [hcall] at hguest
    obtain ⟨u, hu⟩ := Option.isSome_iff_exists.1 hguest.1
    exact ⟨.goOn, rfl, isSome_goOn_of_sending hcall hu⟩
  | awaiting =>
    rw [hcall] at hguest
    obtain ⟨u, hu, hsettled⟩ := hguest
    cases hresponse : u.response with
    | some => exact ⟨.goOn, rfl, by simp [step?, goOn, hcall, hu, hresponse]⟩
    | none =>
      -- the bridge thread works on it, or waits for a producer that does
      by_cases hjoin : u.exchange.result?.isSome = true ∧ u.producerCancelled = true ∧
          u.producer ≠ .finished
      · refine ⟨.produce, rfl, ?_⟩
        simp only [step?, onUpload, hu, Option.isSome_map]
        exact isSome_produce hjoin.2.2 fun hproducer hevents =>
          hsettled.not_waiting hproducer hevents
      · refine ⟨.bridge .full, rfl, ?_⟩
        simp only [step?, onUpload, hu, Option.isSome_map, Upload.bridge, hresponse]
        split
        · rfl
        next result hresult =>
          split
          next hcancelled =>
            split
            · rfl
            next hproducer => exact absurd ⟨by simp [hresult], hcancelled, hproducer⟩ hjoin
          · rfl

/-- In every run in which the guest gives up its last event only where the producer does not come to
wait for it, no state has a circular wait. -/
theorem uploads_progress (wallTime : Option ℕ) (events : List Step)
    (h : Along (step codec) Admissible (opened wallTime) events) :
    Always (step codec) (Progresses codec) (opened wallTime) events := by
  have hkept : Always (step codec) (fun s => s.Kept ∧ s.GuestKept) (opened wallTime) events := by
    refine Always.of_along (fun s event ⟨hs, hguest⟩ hok => ?_) ⟨kept_opened wallTime, trivial⟩ h
    unfold step
    cases hstep : s.step? codec event with
    | none => exact ⟨hs, hguest⟩
    | some t => exact hs.step? hguest hok hstep
  exact hkept.mono fun s hs => hs.2.progresses

/-! ### An upload that is cancelled -/

/-- The frames of a short upload, as a guest writes them. -/
def requestFrame : Bytes :=
  encodeText "\x7b\"type\":\"request\",\"method\":\"POST\",\"url\":\"http://h/\"\x7d".toList

/-- The frame of a chunk. -/
def bodyChunkFrame : Bytes :=
  encodeText "\x7b\"type\":\"body_chunk\",\"body_base64\":\"aGk=\"\x7d".toList

def bodyEndFrame : Bytes := encodeText "\x7b\"type\":\"body_end\"\x7d".toList

/-- The parsers and printers on these frames and on responses without headers. -/
def shortCodec : DeviceCodec where
  frame buf :=
    if buf = requestFrame then .ok (.request "POST".toList "http://h/".toList [] none none)
    else if buf = bodyChunkFrame then .ok (.bodyChunk "aGk=".toList)
    else if buf = bodyEndFrame then .ok .bodyEnd
    else .error "expected value at line 1 column 1"
  declaresFrame buf := buf = requestFrame ∨ buf = bodyChunkFrame ∨ buf = bodyEndFrame
  decode text := if text = "aGk=".toList then .ok [104, 105] else .error "Invalid padding"
  encode body := if body = [104, 105] then "aGk=".toList else []
  toVec response := encodeText <|
    match response.response, response.error with
    | some success, _ =>
      "\x7b\"ok\":true,\"response\":\x7b\"status\":".toList ++ (toString success.status).toList ++
        ",\"headers\":[],\"body_base64\":\"".toList ++ success.bodyBase64 ++ "\"\x7d\x7d".toList
    | none, some error =>
      "\x7b\"ok\":false,\"error\":\x7b\"kind\":\"".toList ++ error.kind.toList ++
        "\",\"message\":\"".toList ++ error.message.toList ++ "\"\x7d\x7d".toList
    | none, none => "\x7b\"ok\":false\x7d".toList

/-- The run is cancelled after the end of the body was sent. -/
theorem uploads_progress_cancelled :
    Always (step shortCodec) (Progresses shortCodec) (opened none)
      [.write requestFrame, .write bodyEndFrame, .goOn, .goOn, .cancel, .read 64 [], .goOn] :=
  uploads_progress none _
    ⟨fun h => (nomatch h.1), fun h => (nomatch h.1), fun h => (nomatch h.2.1),
      fun h => (nomatch h.2.1), fun h => (nomatch h.1), fun h => (nomatch h.1),
      fun ⟨_, _, _, _, h⟩ => (nomatch h), trivial⟩

/-- The run is cancelled before the guest reads the response of an upload it has not ended. -/
theorem not_uploads_progress_cancelled :
    ¬ ∀ (codec : DeviceCodec) (wallTime : Option ℕ) (events : List Step),
      Always (step codec) (Progresses codec) (opened wallTime) events := by
  intro h
  have hlast := (h shortCodec none
    [.write requestFrame, .cancel, .read 64 [], .goOn, .bridge .ok, .bridge .ok]).last
  exact hlast.1 ⟨64, _, _, rfl, rfl, rfl, rfl, rfl, rfl, rfl, rfl⟩

end UploadSystem

end WasmHost

import WasmHost.Core.UploadProgress

/-!
# What a read of an upload returns

Whether the guest gets the result of the bridge. The response of the device comes from the bridge
thread, or from a write that failed (`set_response_from_write`), and a response that is there is not
replaced before the guest has read it. So the result is masked exactly by a write of a body frame
that fails; as long as none does (`UploadSystem.Accepted`), every response is the encoding of the
result (`Told`).
-/

namespace WasmHost

namespace UploadSystem

/-- What a read returns to the guest in this step. -/
def readBy (codec : DeviceCodec) (s : UploadSystem) (step : Step) : Option Bytes :=
  let output := (s.step? codec step).bind fun t =>
    match t.guest with
    | .running output => output
    | _ => none
  match step with
  | .read _ _ => output
  | .goOn => output
  | _ => none

/-- The room of the buffer that is read into. -/
def roomOf (s : UploadSystem) (step : Step) : ℕ :=
  match s.guest, step with
  | .awaiting room, _ => room
  | _, .read room _ => room
  | _, _ => 0

/-- A read of an upload whose bridge has a result returns the encoding of that result, the first
read from its start. -/
def Unmasked (codec : DeviceCodec) (s : UploadSystem) (step : Step) : Prop :=
  ∀ u result bytes, s.upload = some u → u.exchange.result? = some result →
    s.readBy codec step = some bytes →
    (s.step codec step).device.response = some (encodeHttpBridgeDeviceResult codec result) ∧
      (s.device.response = none ∨ s.device.resetResponseCursor = true →
        bytes = (encodeHttpBridgeDeviceResult codec result).take (s.roomOf step))

/-- A frame with a chunk of the body, or with its end. -/
def IsBodyFrame (codec : DeviceCodec) (buf : Bytes) : Prop :=
  codec.frame buf = .ok .bodyEnd ∨
    ∃ bodyBase64 chunk, codec.frame buf = .ok (.bodyChunk bodyBase64) ∧
      codec.decode bodyBase64 = .ok chunk

/-- Every body frame of the guest is taken: it is written before the upload is closed, the run is
not cancelled when its event is sent, and the producer still receives events. -/
def Accepted (codec : DeviceCodec) (s : UploadSystem) : Step → Prop
  | .write buf => s.device.upload = some ⟨true⟩ → s.device.response = none →
      ¬ IsBodyFrame codec buf
  | .goOn => ∀ event point next, s.guest = .sending event point next →
      next = .chunkFrame ∨ next = .endFrame →
      match point with
      | .cancelled => s.cancelled = false
      | .channel => ∀ u, s.upload = some u → u.producer.isReceiver = true
  | _ => True

/-! ### Responses that are results -/

/-- What the bridge has sent, and what the device has as its response, is the encoded result. -/
structure Told (codec : DeviceCodec) (s : UploadSystem) : Prop where
  sent : ∀ u response, s.upload = some u → u.response = some response →
    ∃ result, u.exchange.result? = some result ∧
      response = encodeHttpBridgeDeviceResult codec result
  kept : ∀ u response, s.upload = some u → s.device.response = some response →
    u.response = some response

/-- Where the device keeps its part of the upload. -/
def Placed (s : UploadSystem) : Prop :=
  match s.guest with
  | .running _ =>
    s.upload.isSome = true → s.device.upload.isSome = true ∨ s.device.response.isSome = true
  | .sending _ _ (.read _) => s.device.response = none
  | .sending _ _ _ => s.device.upload.isSome = true
  | .awaiting _ => s.device.response = none

variable {codec : DeviceCodec} {s t : UploadSystem} {next : AfterSend} {buf : Bytes}

theorem told_opened (wallTime : Option ℕ) : (opened wallTime).Told codec :=
  ⟨fun _ _ h => (nomatch h), fun _ _ h => nomatch h⟩

theorem Told.of_eq (hs : s.Told codec) (hupload : t.upload = s.upload)
    (hresponse : ∀ response, t.device.response = some response →
      s.device.response = some response) : t.Told codec where
  sent := hupload ▸ hs.sent
  kept u response hu h := hs.kept u response (hupload ▸ hu) (hresponse response h)

/-- Without an upload there is nothing to tell. -/
theorem told_of_none (h : s.upload = none) : s.Told codec :=
  ⟨fun u _ hu => by simp [h] at hu, fun u _ hu => by simp [h] at hu⟩

variable {output : Option Bytes} {state : HttpBridgeDeviceUploadState}

/-- A device without upload between two calls has no threads to follow either, or a response. -/
theorem Placed.upload_eq_none (hs : s.Placed) (hguest : s.guest = .running output)
    (hupload : s.device.upload = none) (hresponse : s.device.response = none) :
    s.upload = none := by
  unfold Placed at hs
  rw [hguest] at hs
  cases hu : s.upload with
  | none => rfl
  | some => simp [hu, hupload, hresponse] at hs

/-- The return of a send that went well, or whose failure the device ignores. -/
theorem Told.sent_of_ok (hs : s.Told codec) {event : HttpBridgeDeviceUploadEvent}
    {point : SendPoint} (hguest : s.guest = .sending event point next) (hplaced : s.Placed)
    {result : Except HttpBridgeError Unit}
    (hok : next = .chunkFrame ∨ next = .endFrame → result = .ok ()) :
    (s.sent codec result next).Told codec ∧ (s.sent codec result next).Placed := by
  unfold Placed at hplaced
  rw [hguest] at hplaced
  cases next with
  | chunkFrame =>
    obtain rfl := hok (.inl rfl)
    exact ⟨hs.of_eq rfl fun _ => id, fun _ => .inl hplaced⟩
  | endFrame =>
    obtain rfl := hok (.inr rfl)
    exact ⟨hs.of_eq rfl fun _ => id, fun _ =>
      .inl (by simpa [UploadSystem.sent, close, wrote] using hplaced)⟩
  | failFrame =>
    exact ⟨hs.of_eq rfl fun _ => id, fun _ =>
      .inl (by simpa [UploadSystem.sent, close, wrote] using hplaced)⟩
  | read => exact ⟨hs.of_eq rfl fun _ => id, hplaced⟩

theorem Told.failUpload (hs : s.Told codec) (hstate : s.device.upload = some state)
    (error : HttpBridgeError) :
    (s.failUpload state error).Told codec ∧ (s.failUpload state error).Placed := by
  have hsome : s.device.upload.isSome = true := by simp [hstate]
  unfold UploadSystem.failUpload
  split
  · exact ⟨hs.of_eq rfl fun _ => id, fun _ => .inl hsome⟩
  · exact ⟨hs.of_eq rfl fun _ => id, hsome⟩

theorem Told.sendUploadEvent (hs : s.Told codec) (hstate : s.device.upload = some state)
    (hopen : state.closed = false) (event : HttpBridgeDeviceUploadEvent)
    (hframe : next = .chunkFrame ∨ next = .endFrame) :
    (s.sendUploadEvent codec state event next).Told codec ∧
      (s.sendUploadEvent codec state event next).Placed := by
  unfold UploadSystem.sendUploadEvent
  rw [if_neg (by simp [hopen])]
  refine ⟨hs.of_eq rfl fun _ => id, ?_⟩
  rcases hframe with rfl | rfl <;> exact (by simp [hstate] : s.device.upload.isSome = true)

theorem Told.writeUploadFrame (hs : s.Told codec) (hstate : s.device.upload = some state)
    (hopen : IsBodyFrame codec buf → state.closed = false) :
    (s.writeUploadFrame codec state buf).Told codec ∧
      (s.writeUploadFrame codec state buf).Placed := by
  unfold UploadSystem.writeUploadFrame
  split
  · exact hs.failUpload hstate _
  next bodyBase64 hframe =>
    split
    · exact hs.failUpload hstate _
    next chunk hchunk =>
      exact hs.sendUploadEvent hstate (hopen (.inr ⟨bodyBase64, chunk, hframe, hchunk⟩)) _
        (.inl rfl)
  next hframe => exact hs.sendUploadEvent hstate (hopen (.inl hframe)) _ (.inr rfl)
  · exact hs.failUpload hstate _

/-- A first frame is written where no upload is left; it may start one. -/
theorem told_writeFirstFrame (hnone : s.upload = none) (hresponse : s.device.response = none)
    (buf : Bytes) :
    (s.writeFirstFrame codec buf).Told codec ∧ (s.writeFirstFrame codec buf).Placed := by
  unfold UploadSystem.writeFirstFrame
  split
  · split
    · refine ⟨⟨fun u response hu h => ?_, fun u response _ h => ?_⟩, fun _ => .inl rfl⟩
      · obtain rfl := Option.some.inj hu
        cases h
      · exact nomatch hresponse.symm.trans h
    · exact ⟨told_of_none hnone, fun h => by simp [wrote, setResponseFromWrite, hnone] at h⟩
  · exact ⟨told_of_none hnone, fun h => by simp [wrote, setResponseFromWrite, hnone] at h⟩
  · split
    · exact ⟨told_of_none hnone, fun h => by simp [wrote, setResponseFromWrite, hnone] at h⟩
    · exact ⟨told_of_none hnone, fun h => by simp [wrote, hnone] at h⟩

theorem Told.write (hs : s.Told codec) (hplaced : s.Placed) (hguest : s.guest = .running output)
    (hok : s.Accepted codec (.write buf)) :
    (s.write codec buf).Told codec ∧ (s.write codec buf).Placed := by
  unfold UploadSystem.write
  split
  next h => exact ⟨hs.of_eq rfl fun _ => id, fun _ => .inr h.1⟩
  cases hresponse : s.device.response with
  | some response =>
    -- the response goes, and the upload with it
    simp only [UploadSystem.forgetResponse, hresponse, Option.isSome_some, if_true]
    exact told_writeFirstFrame rfl rfl buf
  | none =>
    have hreset : { s with device := { s.device with
        response := none, resetResponseCursor := false, cursor := 0 } }.Told codec :=
      hs.of_eq rfl fun _ h => by cases h
    simp only [UploadSystem.forgetResponse, hresponse, Option.isSome_none, Bool.false_eq_true,
      if_false]
    split
    next state hstate =>
      refine hreset.writeUploadFrame hstate fun hframe => ?_
      obtain ⟨closed⟩ := state
      cases closed with
      | false => rfl
      | true => exact absurd hframe (hok hstate hresponse)
    next hupload =>
      have hnone := hplaced.upload_eq_none hguest hupload hresponse
      apply told_writeFirstFrame
      · exact hnone
      · rfl

theorem Told.read (hs : s.Told codec) (hplaced : s.Placed) (hguest : s.guest = .running output)
    (room : ℕ) (answer : Bytes) :
    (s.read room answer).Told codec ∧ (s.read room answer).Placed := by
  unfold UploadSystem.read
  cases hresponse : s.device.response with
  | some =>
    simp only
    split
    · exact ⟨hs.of_eq rfl fun _ h => hresponse.trans h, fun _ => .inr rfl⟩
    · exact ⟨hs.of_eq rfl fun _ => id, fun _ => .inr (by simp [deliver, hresponse])⟩
  | none =>
    simp only
    cases hupload : s.device.upload with
    | none =>
      have hnone := hplaced.upload_eq_none hguest hupload hresponse
      exact ⟨told_of_none hnone, fun _ => .inr rfl⟩
    | some =>
      simp only
      split <;> exact ⟨hs.of_eq rfl fun _ => id, hresponse⟩

theorem Told.goOn (hs : s.Told codec) (hplaced : s.Placed) (hok : s.Accepted codec .goOn)
    (h : s.goOn codec = some t) : t.Told codec ∧ t.Placed := by
  unfold UploadSystem.goOn at h
  split at h
  next event point next u hcall hu =>
    have hsending (point : SendPoint) :
        { s with guest := .sending event point next }.Told codec ∧
          { s with guest := .sending event point next }.Placed := by
      refine ⟨hs.of_eq rfl fun _ => id, ?_⟩
      unfold Placed at hplaced ⊢
      rw [hcall] at hplaced
      cases next with
      | chunkFrame | endFrame | failFrame | read => exact hplaced
    have hframe := hok event point next hcall
    split at h
    · split at h
      next hcancelled =>
        obtain rfl := Option.some.inj h
        refine hs.sent_of_ok hcall hplaced fun hnext => ?_
        exact nomatch hcancelled.symm.trans (hframe hnext)
      · exact Option.some.inj h ▸ hsending .channel
    · split at h
      next hreceiver =>
        obtain rfl := Option.some.inj h
        exact hs.sent_of_ok hcall hplaced fun hnext => absurd (hframe hnext u hu) hreceiver
      · split at h
        · obtain rfl := Option.some.inj h
          have hpushed :
              { s with upload := some { u with events := u.events ++ [event] } }.Told codec := by
            refine ⟨fun v response hv => ?_, fun v response hv => ?_⟩
            · obtain rfl := Option.some.inj hv
              exact hs.sent u response hu
            · obtain rfl := Option.some.inj hv
              exact hs.kept u response hu
          refine hpushed.sent_of_ok hcall ?_ fun _ => rfl
          unfold Placed at hplaced ⊢
          rw [hcall] at hplaced
          simp only [hcall]
          cases next with
          | chunkFrame | endFrame | failFrame | read => exact hplaced
        · exact Option.some.inj h ▸ hsending .cancelled
  next room u hcall hu =>
    split at h
    next response hresponse =>
      obtain rfl := Option.some.inj h
      refine ⟨⟨fun v response' hv => ?_, fun v response' hv h => ?_⟩, fun _ => .inr rfl⟩
      · obtain rfl := Option.some.inj hv
        exact hs.sent u response' hu
      · obtain rfl := Option.some.inj hv
        exact hresponse.trans h
    · cases h
  · cases h

/-! ### Steps and runs -/

end UploadSystem

namespace Upload

variable {codec : DeviceCodec}

/-- What a step of a thread may do to the result and the response of its upload: leave a result and
the response as they are, or send the encoded result. -/
def Tells (codec : DeviceCodec) (u v : Upload) : Prop :=
  (v.response = u.response ∧ ∀ result, u.exchange.result? = some result →
    v.exchange.result? = some result) ∨
  (u.response = none ∧ v.exchange.result? = u.exchange.result? ∧ ∃ result,
    u.exchange.result? = some result ∧
      v.response = some (encodeHttpBridgeDeviceResult codec result))

variable {u v : Upload}

/-- A thread that leaves the caller of the exchange alone. -/
theorem tells_of_caller (hresponse : v.response = u.response)
    (hcaller : v.exchange.caller = u.exchange.caller) : u.Tells codec v :=
  .inl ⟨hresponse, fun _ h => Exchange.result?_congr hcaller ▸ h⟩

theorem tells_bridge {cancelled : Bool} {room : TrySend}
    (hv : u.bridge codec cancelled room = some v) : u.Tells codec v := by
  unfold Upload.bridge at hv
  split at hv
  · cases hv
  next hresponse =>
    split at hv
    next hwaiting =>
      obtain rfl := Option.some.inj hv
      exact .inl ⟨rfl, fun _ h => nomatch hwaiting.symm.trans h⟩
    next result hresult =>
      split at hv
      · split at hv
        · obtain rfl := Option.some.inj hv
          exact .inr ⟨hresponse, rfl, result, hresult, rfl⟩
        · cases hv
      · obtain rfl := Option.some.inj hv
        exact tells_of_caller rfl rfl

theorem tells_produce (hv : u.produce = some v) : u.Tells codec v := by
  obtain ⟨hresponse, h | ⟨event, point, h⟩⟩ := exchange_produce hv
  · exact tells_of_caller hresponse (congrArg Exchange.caller h)
  · refine tells_of_caller hresponse ((congrArg Exchange.caller h).trans ?_)
    exact HttpRequestBodyWriter.caller_sendEvent u.producerCancelled event u.exchange point

theorem tells_transport {op : TransportOp} (hv : u.transport op = some v) : u.Tells codec v := by
  obtain ⟨exchange, hexchange, rfl⟩ := Option.map_eq_some_iff.1 hv
  exact tells_of_caller rfl (Exchange.caller_transport hexchange)

end Upload

namespace UploadSystem

variable {codec : DeviceCodec} {s t : UploadSystem}

theorem Told.onUpload {f : Upload → Option Upload} (hs : s.Told codec) (hplaced : s.Placed)
    (hf : ∀ u v, f u = some v → u.Tells codec v) (h : s.onUpload f = some t) :
    t.Told codec ∧ t.Placed := by
  unfold UploadSystem.onUpload at h
  split at h
  next u hu =>
    obtain ⟨v, hv, rfl⟩ := Option.map_eq_some_iff.1 h
    refine ⟨⟨fun w response hw hresponse => ?_, fun w response hw hresponse => ?_⟩, ?_⟩
    · obtain rfl := Option.some.inj hw
      rcases hf u v hv with ⟨hsame, hresult⟩ | ⟨-, heq, result, hresult, hsent⟩
      · obtain ⟨result, h, rfl⟩ := hs.sent u response hu (hsame ▸ hresponse)
        exact ⟨result, hresult result h, rfl⟩
      · exact ⟨result, heq.trans hresult, Option.some.inj (hresponse.symm.trans hsent)⟩
    · obtain rfl := Option.some.inj hw
      have hbefore := hs.kept u response hu hresponse
      rcases hf u v hv with ⟨hsame, -⟩ | ⟨hnone, -⟩
      · exact hsame.trans hbefore
      · exact nomatch hnone.symm.trans hbefore
    · unfold Placed at hplaced ⊢
      simp only [hu] at hplaced
      exact hplaced
  · cases h

theorem Told.step? (hs : s.Told codec) (hplaced : s.Placed) {event : Step}
    (hok : s.Accepted codec event) (h : s.step? codec event = some t) :
    t.Told codec ∧ t.Placed := by
  cases event with
  | write =>
    simp only [UploadSystem.step?, call] at h
    split at h
    next output hguest => exact Option.some.inj h ▸ hs.write hplaced hguest hok
    · cases h
  | read room answer =>
    simp only [UploadSystem.step?, call] at h
    split at h
    next output hguest => exact Option.some.inj h ▸ hs.read hplaced hguest room answer
    · cases h
  | seek =>
    simp only [UploadSystem.step?, call] at h
    split at h
    next output hguest =>
      unfold Placed at hplaced
      rw [hguest] at hplaced
      exact Option.some.inj h ▸ ⟨hs.of_eq rfl fun _ => id, hplaced⟩
    · cases h
  | goOn => exact hs.goOn hplaced hok h
  | bridge => exact hs.onUpload hplaced (fun _ _ => Upload.tells_bridge) h
  | produce => exact hs.onUpload hplaced (fun _ _ => Upload.tells_produce) h
  | transport => exact hs.onUpload hplaced (fun _ _ => Upload.tells_transport) h
  | cancel => exact Option.some.inj h ▸ ⟨hs.of_eq rfl fun _ => id, hplaced⟩
  | expire =>
    refine hs.onUpload hplaced (fun u v hv => ?_) h
    split at hv
    · exact Option.some.inj hv ▸ Upload.tells_of_caller rfl rfl
    · cases hv

/-- Only a call of the guest that waits for the response returns what it read. -/
theorem readBy_sent {result : Except HttpBridgeError Unit} {next : AfterSend} :
    (match (s.sent codec result next).guest with
      | .running output => output
      | _ => none) = none := by
  cases next with
  | chunkFrame | endFrame => cases result <;> rfl
  | failFrame | read => rfl

theorem Told.unmasked (hs : s.Told codec) (hplaced : s.Placed) (event : Step) :
    s.Unmasked codec event := by
  intro u result bytes hu hresult hread
  -- the response of the device is the encoded result
  have hencoded (response : Bytes) (h : u.response = some response) :
      response = encodeHttpBridgeDeviceResult codec result := by
    obtain ⟨result', hresult', rfl⟩ := hs.sent u response hu h
    rw [Option.some.inj (hresult.symm.trans hresult')]
  cases event with
  | read room answer =>
    cases hguest : s.guest with
    | sending | awaiting => simp [readBy, UploadSystem.step?, call, hguest] at hread
    | running output =>
      have hstep : s.step? codec (.read room answer) = some (s.read room answer) := by
        simp [UploadSystem.step?, call, hguest]
      have hroom : s.roomOf (.read room answer) = room := by simp [roomOf, hguest]
      simp only [readBy, hstep, Option.bind_some] at hread
      rw [step, hstep, Option.getD_some, hroom]
      cases hresponse : s.device.response with
      | some response =>
        obtain rfl := hencoded response (hs.kept u response hu hresponse)
        cases hreset : s.device.resetResponseCursor with
        | true =>
          simp only [UploadSystem.read, hresponse, hreset, if_true] at hread ⊢
          exact ⟨rfl, fun _ => (Option.some.inj hread).symm⟩
        | false =>
          simp only [UploadSystem.read, hresponse, hreset, Bool.false_eq_true, if_false]
          exact ⟨hresponse, fun h => by simp at h⟩
      | none =>
        -- the device has no response yet, so that the guest begins to wait for it
        cases hupload : s.device.upload with
        | none => simp [hplaced.upload_eq_none hguest hupload hresponse] at hu
        | some =>
          simp only [UploadSystem.read, hresponse, hupload] at hread
          split at hread
          next output hrunning => split at hrunning <;> cases hrunning
          · cases hread
  | goOn =>
    simp only [readBy, UploadSystem.step?] at hread
    cases hguest : s.guest with
    | running => simp [UploadSystem.goOn, hguest] at hread
    | sending event point next =>
      rw [UploadSystem.goOn, hguest, hu] at hread
      simp only at hread
      cases point with
      | cancelled =>
        simp only at hread
        split at hread
        · cases readBy_sent.symm.trans hread
        · cases hread
      | channel =>
        simp only at hread
        split at hread
        · cases readBy_sent.symm.trans hread
        split at hread
        · cases readBy_sent.symm.trans hread
        · cases hread
    | awaiting room =>
      cases hresponse : u.response with
      | none => simp [UploadSystem.goOn, hguest, hu, hresponse] at hread
      | some response =>
        obtain rfl := hencoded response hresponse
        have hstep : s.step? codec .goOn =
            some (({ s with upload := some { u with senderGone := true } } : UploadSystem).respond
              room (encodeHttpBridgeDeviceResult codec result)) := by
          simp [UploadSystem.step?, UploadSystem.goOn, hguest, hu, hresponse]
        simp only [UploadSystem.goOn, hguest, hu, hresponse, Option.bind_some] at hread
        have hroom : s.roomOf .goOn = room := by simp [roomOf, hguest]
        rw [step, hstep, Option.getD_some, hroom]
        exact ⟨rfl, fun _ => (Option.some.inj hread).symm⟩
  | write | seek | bridge | produce | transport | cancel | expire => cases hread

/-- In every run in which every body frame of the guest is taken, every read of an upload whose
bridge has a result returns that result. -/
theorem results_unmasked (wallTime : Option ℕ) (events : List Step)
    (h : Along (step codec) (Accepted codec) (opened wallTime) events) :
    Along (step codec) (Unmasked codec) (opened wallTime) events := by
  have htold : Always (step codec) (fun s => s.Told codec ∧ s.Placed) (opened wallTime) events := by
    refine Always.of_along (fun s event ⟨hs, hplaced⟩ hok => ?_)
      ⟨told_opened wallTime, fun h => nomatch h⟩ h
    unfold step
    cases hstep : s.step? codec event with
    | none => exact ⟨hs, hplaced⟩
    | some t => exact hs.step? hplaced hok hstep
  exact htold.along fun s event hs => hs.1.unmasked hs.2 event

/-- The steps that submit a request, and those that receive an answer of the transport. -/
def answered (event : HttpBridgeResponseEvent) : List Step :=
  [.bridge .ok, .bridge .ok, .bridge .ok, .transport (.respond event), .transport .release,
    .bridge .ok, .bridge .ok, .bridge .ok, .bridge .ok]

/-- An upload that ends before its response is there. -/
theorem results_unmasked_page :
    Along (step shortCodec) (Unmasked shortCodec) (opened none)
      ([.write requestFrame, .write bodyEndFrame, .goOn, .goOn] ++
        answered (.complete (.ok ⟨200, [], []⟩)) ++
        [.produce, .produce, .bridge .ok, .read 4096 [], .goOn]) :=
  results_unmasked none _ ⟨fun h => (nomatch h), fun h => (nomatch h),
    fun _ _ _ h _ => by cases h; rfl, fun _ _ _ h _ => by cases h; intro u hu; cases hu; rfl,
    trivial, trivial, trivial, trivial, trivial, trivial, trivial, trivial, trivial, trivial,
    trivial, trivial, trivial, fun _ _ _ h => (nomatch h), trivial⟩

/-- A response of status 200 that is sent before the body is read, and a guest that writes its body
then. -/
theorem not_results_unmasked_early :
    ¬ ∀ (codec : DeviceCodec) (wallTime : Option ℕ) (events : List Step),
      Along (step codec) (Unmasked codec) (opened wallTime) events := by
  intro h
  have hlast := (h shortCodec none
    ([.write requestFrame] ++ answered (.complete (.ok ⟨200, [], []⟩)) ++
      [.write bodyChunkFrame, .goOn, .goOn, .produce, .produce, .write bodyEndFrame, .goOn,
        .goOn] ++
      [.read 4096 []])).concat
  have hread := (hlast _ _ _ rfl rfl rfl).1
  revert hread
  decide

end UploadSystem

end WasmHost

import WasmHost.Core.UploadResult

/-!
# Writes of a device request

How the bytes of a request come to `HttpBridgeDeviceFile`. A write that is no frame is appended to
the request, and a read that finds a request dispatches it; the first write behind a response that
has begun to be read clears what there was.

* `requests_ignoreBoundaries`: cuts of a request into writes that are no frames come to the same,
  and in any run a response depends only on what was written since the one before began to be read.
* `not_requests_ignoreBoundaries`: documents with a field `type`.
-/

namespace WasmHost

open List

namespace UploadSystem

variable {codec : DeviceCodec} {s t : UploadSystem} {buf doc : Bytes}

/-- A write that is taken as a part of a request: it is no frame, and declares none. -/
def IsFragment (codec : DeviceCodec) (buf : Bytes) : Prop :=
  (∃ error, codec.frame buf = .error error) ∧ codec.declaresFrame buf = false

/-- The response has begun to be read. -/
def Begun (s : UploadSystem) : Prop :=
  s.device.response.isSome = true ∧ s.device.resetResponseCursor = false

/-- The guest runs, and nothing has been written since the last response began to be read. -/
def Idle (s : UploadSystem) : Prop :=
  (∃ output, s.guest = .running output) ∧
    (s.Begun ∨ s.device.response = none ∧ s.device.upload = none ∧ s.device.request = [])

/-- The next read dispatches the request. -/
structure Dispatches (request : Bytes) (s : UploadSystem) : Prop where
  guest : ∃ output, s.guest = .running output
  response : s.device.response = none
  upload : s.device.upload = none
  request : s.device.request = request

/-! ### One write -/

/-- The state that a write works on. -/
def beginWrite (s : UploadSystem) : UploadSystem :=
  let s := s.forgetResponse
  { s with
    device := { s.device with response := none, resetResponseCursor := false, cursor := 0 }
    guest := .running none }

/-- Keeps what is written. -/
def collect (buf : Bytes) (s : UploadSystem) : UploadSystem :=
  { s with device := { s.device with request := s.device.request ++ buf } }

theorem step_write {output : Option Bytes} (hguest : s.guest = .running output) (buf : Bytes) :
    s.step codec (.write buf) = s.write codec buf := by
  unfold step step? call
  rw [hguest]
  rfl

/-- The first frame of a device does not depend on what the guest has read. -/
theorem writeFirstFrame_guest (guest : DeviceGuest) :
    writeFirstFrame codec buf { s with guest := guest } = writeFirstFrame codec buf s := by
  unfold writeFirstFrame
  split
  next method url headers responseBodyLimit timeoutMs hframe =>
    dsimp only
    split <;> rfl
  · rfl
  · split <;> rfl

theorem write_of_begun (h : s.Begun) (buf : Bytes) :
    s.write codec buf = s.beginWrite.writeFirstFrame codec buf := by
  have hnot : ¬(s.device.response.isSome = true ∧ s.device.resetResponseCursor = true) := by
    intro hand
    rw [h.2] at hand
    exact Bool.false_ne_true hand.2
  have hforget : s.forgetResponse =
      { s with device := { s.device with request := [], upload := none }, upload := none } :=
    if_pos h.1
  unfold write beginWrite
  rw [if_neg hnot, hforget]
  exact (writeFirstFrame_guest _).symm

theorem write_of_none (hresponse : s.device.response = none) (hupload : s.device.upload = none)
    (buf : Bytes) : s.write codec buf = s.beginWrite.writeFirstFrame codec buf := by
  have hnone : ¬s.device.response.isSome = true := by
    rw [hresponse]
    exact Bool.false_ne_true
  have hforget : s.forgetResponse = s := if_neg hnone
  unfold write beginWrite
  rw [if_neg fun h => hnone h.1, hforget]
  dsimp only
  rw [hupload]
  exact (writeFirstFrame_guest _).symm

theorem writeFirstFrame_of_fragment (h : IsFragment codec buf) (hguest : s.guest = .running none) :
    s.writeFirstFrame codec buf = s.collect buf := by
  obtain ⟨⟨error, hframe⟩, hdeclares⟩ := h
  unfold writeFirstFrame
  rw [hframe]
  dsimp only
  rw [hdeclares]
  unfold collect wrote
  rw [if_neg Bool.false_ne_true, ← hguest]

/-- A device to which a part of a request has been written, or none yet. -/
structure Collecting (s : UploadSystem) : Prop where
  guest : s.guest = .running none
  response : s.device.response = none
  upload : s.device.upload = none
  reset : s.device.resetResponseCursor = false
  cursor : s.device.cursor = 0

theorem Collecting.collect (h : s.Collecting) (buf : Bytes) : (s.collect buf).Collecting :=
  ⟨h.guest, h.response, h.upload, h.reset, h.cursor⟩

theorem collect_collect (a b : Bytes) : (s.collect a).collect b = s.collect (a ++ b) := by
  unfold collect
  rw [append_assoc]

theorem Collecting.beginWrite_eq (h : s.Collecting) : s.beginWrite = s := by
  have hforget : s.forgetResponse = s := if_neg (by
    rw [h.response]
    exact Bool.false_ne_true)
  obtain ⟨device, guest, upload, cancelled⟩ := s
  obtain ⟨wallTime, request, deviceUpload, response, reset, cursor⟩ := device
  obtain ⟨hguest, hresponse, -, hreset, hcursor⟩ := h
  unfold beginWrite
  rw [hforget]
  dsimp only at hguest hresponse hreset hcursor ⊢
  rw [hguest, hresponse, hreset, hcursor]

theorem Idle.collecting (h : s.Idle) :
    s.beginWrite.Collecting ∧ s.beginWrite.device.request = [] := by
  rcases h.2 with hbegun | ⟨hresponse, hupload, hrequest⟩
  · have hforget : s.forgetResponse =
        { s with device := { s.device with request := [], upload := none }, upload := none } :=
      if_pos hbegun.1
    unfold beginWrite
    rw [hforget]
    exact ⟨⟨rfl, rfl, rfl, rfl, rfl⟩, rfl⟩
  · have hforget : s.forgetResponse = s := if_neg (by
      rw [hresponse]
      exact Bool.false_ne_true)
    unfold beginWrite
    rw [hforget]
    exact ⟨⟨rfl, rfl, hupload, rfl, rfl⟩, hrequest⟩

theorem Idle.step_write (h : s.Idle) (buf : Bytes) :
    s.step codec (.write buf) = s.beginWrite.writeFirstFrame codec buf := by
  obtain ⟨⟨output, hguest⟩, hbegun | ⟨hresponse, hupload, -⟩⟩ := h
  · rw [UploadSystem.step_write hguest, write_of_begun hbegun]
  · rw [UploadSystem.step_write hguest, write_of_none hresponse hupload]

theorem Collecting.step_write (h : s.Collecting) (buf : Bytes) :
    s.step codec (.write buf) = s.writeFirstFrame codec buf := by
  rw [UploadSystem.step_write h.guest, write_of_none h.response h.upload, h.beginWrite_eq]

/-! ### Cuts -/

variable {pieces : List Bytes} {state : HttpBridgeDeviceUploadState}

/-- Fragments are appended one by one. -/
theorem Collecting.runAll_writes (h : s.Collecting)
    (hpieces : ∀ piece ∈ pieces, IsFragment codec piece) :
    runAll (step codec) s (pieces.map .write) = s.collect pieces.flatten := by
  induction pieces generalizing s with
  | nil =>
    unfold UploadSystem.collect
    rw [flatten_nil, append_nil]
    rfl
  | cons piece pieces ih =>
    rw [map_cons, runAll_cons, h.step_write,
      writeFirstFrame_of_fragment (hpieces piece mem_cons_self) h.guest,
      ih (h.collect piece) fun piece' hmem => hpieces piece' (mem_cons_of_mem _ hmem),
      collect_collect, flatten_cons]

/-- The first write leaves nothing of what was read before. -/
theorem Idle.runAll_eq (h : s.Idle) (buf : Bytes) (events : List Step) :
    runAll (step codec) s (.write buf :: events) =
      runAll (step codec) s.beginWrite (.write buf :: events) := by
  rw [runAll_cons, runAll_cons, h.step_write, h.collecting.1.step_write]

/-- The fragments of a request come to what the request comes to. -/
theorem Idle.runAll_writes (h : s.Idle) (hne : pieces ≠ [])
    (hpieces : ∀ piece ∈ pieces, IsFragment codec piece) :
    runAll (step codec) s (pieces.map .write) = s.beginWrite.collect pieces.flatten := by
  rw [← h.collecting.1.runAll_writes hpieces]
  cases pieces with
  | nil => exact absurd rfl hne
  | cons piece pieces => exact h.runAll_eq piece _

theorem Idle.dispatches (h : s.Idle) (doc : Bytes) : (s.beginWrite.collect doc).Dispatches doc := by
  obtain ⟨hcollecting, hrequest⟩ := h.collecting
  refine ⟨⟨none, hcollecting.guest⟩, hcollecting.response, hcollecting.upload, ?_⟩
  show s.beginWrite.device.request ++ doc = doc
  rw [hrequest]
  rfl

/-- A frame has been taken: it is refused, or starts an upload. -/
def Taken (s : UploadSystem) : Prop :=
  (s.device.response.isSome = true ∧ s.device.resetResponseCursor = true) ∨
    (s.device.response = none ∧ s.device.upload.isSome = true)

theorem Taken.not_dispatches (h : s.Taken) (doc : Bytes) : ¬s.Dispatches doc := by
  intro hdispatches
  rcases h with ⟨hresponse, -⟩ | ⟨-, hupload⟩
  · rw [hdispatches.response] at hresponse
    exact Bool.false_ne_true hresponse
  · rw [hdispatches.upload] at hupload
    exact Bool.false_ne_true hupload

theorem taken_writeFirstFrame (h : ¬IsFragment codec buf) (hresponse : s.device.response = none) :
    (s.writeFirstFrame codec buf).Taken := by
  unfold writeFirstFrame
  split
  · split
    · exact .inr ⟨hresponse, rfl⟩
    · exact .inl ⟨rfl, rfl⟩
  · exact .inl ⟨rfl, rfl⟩
  next error hframe =>
    split
    · exact .inl ⟨rfl, rfl⟩
    next hdeclares => exact absurd ⟨⟨error, hframe⟩, Bool.eq_false_of_not_eq_true hdeclares⟩ h

theorem taken_sendUploadEvent (event : HttpBridgeDeviceUploadEvent) {next : AfterSend}
    (hnext : next = .chunkFrame ∨ next = .endFrame) (hresponse : s.device.response = none)
    (hupload : s.device.upload.isSome = true) :
    (s.sendUploadEvent codec state event next).Taken := by
  unfold sendUploadEvent
  split
  · rcases hnext with rfl | rfl <;> exact .inl ⟨rfl, rfl⟩
  · exact .inr ⟨hresponse, hupload⟩

theorem taken_failUpload (error : HttpBridgeError) (hresponse : s.device.response = none)
    (hupload : s.device.upload.isSome = true) : (s.failUpload state error).Taken := by
  unfold failUpload
  split <;> exact .inr ⟨hresponse, hupload⟩

theorem taken_writeUploadFrame (buf : Bytes) (hresponse : s.device.response = none)
    (hupload : s.device.upload.isSome = true) : (s.writeUploadFrame codec state buf).Taken := by
  unfold writeUploadFrame
  split
  · exact taken_failUpload _ hresponse hupload
  · split
    · exact taken_failUpload _ hresponse hupload
    · exact taken_sendUploadEvent _ (.inl rfl) hresponse hupload
  · exact taken_sendUploadEvent _ (.inr rfl) hresponse hupload
  · exact taken_failUpload _ hresponse hupload

/-- What has been taken as a frame is not taken back by further writes. -/
theorem Taken.write (h : s.Taken) (buf : Bytes) : (s.step codec (.write buf)).Taken := by
  unfold step step? call
  dsimp only
  split
  next output hguest =>
    unfold UploadSystem.write
    rcases h with hmasked | ⟨hresponse, hupload⟩
    · rw [if_pos hmasked]
      exact .inl hmasked
    · have hnone : ¬s.device.response.isSome = true := by
        rw [hresponse]
        exact Bool.false_ne_true
      have hforget : s.forgetResponse = s := if_neg hnone
      rw [if_neg fun h => hnone h.1, hforget]
      obtain ⟨state, hstate⟩ := Option.isSome_iff_exists.1 hupload
      dsimp only
      rw [hstate]
      exact taken_writeUploadFrame buf rfl rfl
  · exact h

theorem Taken.runAll_writes (h : s.Taken) (pieces : List Bytes) :
    (runAll (step codec) s (pieces.map .write)).Taken := by
  induction pieces generalizing s with
  | nil => exact h
  | cons piece pieces ih => exact ih (h.write piece)

theorem Collecting.taken (h : s.Collecting) {piece : Bytes} (hmem : piece ∈ pieces)
    (hpiece : ¬IsFragment codec piece) : (runAll (step codec) s (pieces.map .write)).Taken := by
  induction pieces generalizing s with
  | nil => cases hmem
  | cons first pieces ih =>
    rw [map_cons, runAll_cons, h.step_write]
    by_cases hfirst : IsFragment codec first
    · rw [writeFirstFrame_of_fragment hfirst h.guest]
      refine ih (h.collect first) ((mem_cons.1 hmem).resolve_left ?_)
      rintro rfl
      exact hpiece hfirst
    · exact (taken_writeFirstFrame hfirst h.response).runAll_writes pieces

/-- The next read dispatches what was written exactly if every write was a fragment. -/
theorem Idle.dispatches_iff (h : s.Idle) (hne : pieces ≠ []) :
    (runAll (step codec) s (pieces.map .write)).Dispatches pieces.flatten ↔
      ∀ piece ∈ pieces, IsFragment codec piece := by
  constructor
  · intro hdispatches piece hmem
    by_contra hpiece
    have htaken : (runAll (step codec) s (pieces.map .write)).Taken := by
      cases pieces with
      | nil => cases hmem
      | cons =>
        rw [map_cons, h.runAll_eq]
        exact h.collecting.1.taken hmem hpiece
    exact htaken.not_dispatches _ hdispatches
  · intro hpieces
    rw [h.runAll_writes hne hpieces]
    exact h.dispatches _

/-- What a read returns of a request, if `handle` is what becomes of requests. -/
theorem Dispatches.readBy (h : s.Dispatches doc) (handle : Bytes → Bytes) (room : ℕ) :
    s.readBy codec (.read room (handle s.device.request)) = some ((handle doc).take room) := by
  obtain ⟨output, hguest⟩ := h.guest
  unfold UploadSystem.readBy step? call
  rw [hguest, h.request]
  unfold read
  rw [h.response]
  rw [h.upload]
  rfl

/-! ### Phases of a run -/

/-- The buffers that are written by some steps. -/
def writes (events : List Step) : List Bytes :=
  events.filterMap fun event =>
    match event with
    | .write buf => some buf
    | _ => none

/-- What holds of a device since it was opened, or the last response began to be read, with what has
been written since. -/
structure InPhase (wallTime : Option ℕ) (written : List Bytes) (s : UploadSystem) : Prop where
  wallTime : s.device.wallTime = wallTime
  blocked : (¬∃ output, s.guest = .running output) → s.device.response = none
  sending : ∀ event point next, s.guest = .sending event point next →
    (∃ room, next = .read room) ∨ s.device.upload.isSome = true
  collected : (∃ output, s.guest = .running output) → s.device.response = none →
    s.device.upload = none → s.device.request = written.flatten

section InPhase

variable {wallTime : Option ℕ} {written : List Bytes} {output : Option Bytes} {next : AfterSend}

/-- With a response, or with an upload, nothing is said of the request. -/
theorem InPhase.of_running (hwall : s.device.wallTime = wallTime)
    (hguest : s.guest = .running output)
    (h : s.device.response.isSome = true ∨ s.device.upload.isSome = true) :
    s.InPhase wallTime written where
  wallTime := hwall
  blocked hnot := absurd ⟨output, hguest⟩ hnot
  sending event point next hsending := by
    rw [hguest] at hsending
    cases hsending
  collected _ hresponse hupload := by
    rw [hresponse, hupload] at h
    exact absurd h (by simp)

theorem InPhase.of_sending {event : HttpBridgeDeviceUploadEvent} {point : SendPoint}
    (hwall : s.device.wallTime = wallTime) (hguest : s.guest = .sending event point next)
    (hresponse : s.device.response = none)
    (h : (∃ room, next = .read room) ∨ s.device.upload.isSome = true) :
    s.InPhase wallTime written where
  wallTime := hwall
  blocked _ := hresponse
  sending event' point' next' hsending := by
    rw [hguest] at hsending
    cases hsending
    exact h
  collected hrunning := by
    obtain ⟨output, hrunning⟩ := hrunning
    rw [hguest] at hrunning
    cases hrunning

theorem InPhase.of_awaiting {room : ℕ} (hwall : s.device.wallTime = wallTime)
    (hguest : s.guest = .awaiting room) (hresponse : s.device.response = none) :
    s.InPhase wallTime written where
  wallTime := hwall
  blocked _ := hresponse
  sending event point next hsending := by
    rw [hguest] at hsending
    cases hsending
  collected hrunning := by
    obtain ⟨output, hrunning⟩ := hrunning
    rw [hguest] at hrunning
    cases hrunning

/-- Only the device and the guest matter. -/
theorem InPhase.of_eq (h : s.InPhase wallTime written) (hdevice : t.device = s.device)
    (hguest : t.guest = s.guest) : t.InPhase wallTime written := by
  obtain ⟨hwall, hblocked, hsending, hcollected⟩ := h
  rw [← hdevice] at hwall hblocked hsending hcollected
  rw [← hguest] at hblocked hsending hcollected
  exact ⟨hwall, hblocked, hsending, hcollected⟩

section

variable (hwall : s.device.wallTime = wallTime)
include hwall

theorem inPhase_respond (room : ℕ) (response : Bytes) :
    (s.respond room response).InPhase wallTime written :=
  .of_running hwall rfl (.inl rfl)

/-- A call that sends an event returns. -/
theorem inPhase_sent (hresponse : s.device.response = none)
    (h : (∃ room, next = .read room) ∨ s.device.upload.isSome = true)
    (result : Except HttpBridgeError Unit) :
    (s.sent codec result next).InPhase wallTime written := by
  have hclosed : s.device.upload.isSome = true → s.close.device.upload.isSome = true := fun h => by
    show (s.device.upload.map _).isSome = true
    rw [Option.isSome_map]
    exact h
  cases next with
  | read => exact .of_awaiting hwall rfl hresponse
  | chunkFrame =>
    have hupload := h.resolve_left fun hread => AfterSend.noConfusion hread.choose_spec
    cases result with
    | ok => exact .of_running hwall rfl (.inr hupload)
    | error => exact .of_running hwall rfl (.inl rfl)
  | endFrame =>
    have hupload := h.resolve_left fun hread => AfterSend.noConfusion hread.choose_spec
    cases result with
    | ok => exact .of_running hwall rfl (.inr (hclosed hupload))
    | error => exact .of_running hwall rfl (.inl rfl)
  | failFrame =>
    have hupload := h.resolve_left fun hread => AfterSend.noConfusion hread.choose_spec
    exact .of_running hwall rfl (.inr (hclosed hupload))

theorem inPhase_sendUploadEvent
    (hresponse : s.device.response = none) (hupload : s.device.upload.isSome = true)
    (state : HttpBridgeDeviceUploadState) (event : HttpBridgeDeviceUploadEvent) (next : AfterSend) :
    (s.sendUploadEvent codec state event next).InPhase wallTime written := by
  unfold sendUploadEvent
  split
  · exact inPhase_sent hwall hresponse (.inr hupload) _
  · exact .of_sending hwall rfl hresponse (.inr hupload)

theorem inPhase_failUpload
    (hresponse : s.device.response = none) (hupload : s.device.upload.isSome = true)
    (state : HttpBridgeDeviceUploadState) (error : HttpBridgeError) :
    (s.failUpload state error).InPhase wallTime written := by
  unfold failUpload
  split
  · exact .of_running hwall rfl (.inr hupload)
  · exact .of_sending hwall rfl hresponse (.inr hupload)

theorem inPhase_writeUploadFrame
    (hresponse : s.device.response = none) (hupload : s.device.upload.isSome = true)
    (state : HttpBridgeDeviceUploadState) (buf : Bytes) :
    (s.writeUploadFrame codec state buf).InPhase wallTime written := by
  unfold writeUploadFrame
  split
  · exact inPhase_failUpload hwall hresponse hupload _ _
  · split
    · exact inPhase_failUpload hwall hresponse hupload _ _
    · exact inPhase_sendUploadEvent hwall hresponse hupload _ _ _
  · exact inPhase_sendUploadEvent hwall hresponse hupload _ _ _
  · exact inPhase_failUpload hwall hresponse hupload _ _

theorem inPhase_writeFirstFrame (hrequest : s.device.request = written.flatten) (buf : Bytes) :
    (s.writeFirstFrame codec buf).InPhase wallTime (written ++ [buf]) := by
  unfold writeFirstFrame
  split
  · split
    · exact .of_running hwall rfl (.inr rfl)
    · exact .of_running hwall rfl (.inl rfl)
  · exact .of_running hwall rfl (.inl rfl)
  · split
    · exact .of_running hwall rfl (.inl rfl)
    refine ⟨hwall, fun hnot => absurd ⟨none, rfl⟩ hnot, fun _ _ _ h => ?_, fun _ _ _ => ?_⟩
    · cases h
    show s.device.request ++ buf = _
    rw [hrequest, flatten_append, flatten_singleton]

end

section

variable (h : s.InPhase wallTime written)
include h

/-- A write that does not follow the beginning of a response. -/
theorem InPhase.write (hguest : s.guest = .running output) (hbegun : ¬s.Begun) (buf : Bytes) :
    (s.write codec buf).InPhase wallTime (written ++ [buf]) := by
  unfold UploadSystem.write
  split
  next hmasked => exact .of_running h.wallTime rfl (.inl hmasked.1)
  next hmasked =>
    have hresponse : s.device.response = none := by
      rw [← Option.not_isSome_iff_eq_none]
      intro hsome
      refine hbegun ⟨hsome, Bool.eq_false_of_not_eq_true fun hreset => hmasked ⟨hsome, hreset⟩⟩
    have hforget : s.forgetResponse = s := if_neg (by
      rw [hresponse]
      exact Bool.false_ne_true)
    rw [hforget]
    dsimp only
    split
    next state hstate =>
      refine inPhase_writeUploadFrame ?_ ?_ ?_ state buf
      · exact h.wallTime
      · rfl
      · exact Option.isSome_iff_exists.2 ⟨state, hstate⟩
    next hnone =>
      refine inPhase_writeFirstFrame ?_ ?_ buf
      · exact h.wallTime
      · exact h.collected ⟨output, hguest⟩ hresponse hnone

theorem InPhase.read (room : ℕ) (answer : Bytes) :
    (s.read room answer).InPhase wallTime written := by
  unfold UploadSystem.read
  split
  next response hresponse =>
    split
    · exact inPhase_respond h.wallTime room response
    refine .of_running h.wallTime rfl (.inl ?_)
    exact Option.isSome_iff_exists.2 ⟨response, hresponse⟩
  next hresponse =>
    split
    · exact inPhase_respond h.wallTime room answer
    split
    · exact .of_awaiting h.wallTime rfl hresponse
    · exact .of_sending h.wallTime rfl hresponse (.inl ⟨room, rfl⟩)

theorem InPhase.goOn (ht : s.goOn codec = some t) :
    t.InPhase wallTime written := by
  have hnone : ∀ {guest : DeviceGuest}, s.guest = guest → (∀ output, guest ≠ .running output) →
      s.device.response = none := fun hguest hne =>
    h.blocked fun hrunning => hne _ (hguest.symm.trans hrunning.choose_spec)
  unfold UploadSystem.goOn at ht
  split at ht
  next event point next u hguest hu =>
    have hresponse := hnone hguest fun _ => DeviceGuest.noConfusion
    have hnext := h.sending event point next hguest
    have hsent : ∀ result, (s.sent codec result next).InPhase wallTime written := fun result =>
      inPhase_sent h.wallTime hresponse hnext result
    split at ht
    · split at ht
      · exact Option.some.inj ht ▸ hsent _
      · exact Option.some.inj ht ▸ .of_sending h.wallTime rfl hresponse hnext
    · split at ht
      · exact Option.some.inj ht ▸ hsent _
      split at ht
      · obtain rfl := Option.some.inj ht
        refine inPhase_sent ?_ ?_ ?_ _
        · exact h.wallTime
        · exact hresponse
        · exact hnext
      · exact Option.some.inj ht ▸ .of_sending h.wallTime rfl hresponse hnext
  next room u hguest hu =>
    split at ht
    · obtain rfl := Option.some.inj ht
      refine inPhase_respond ?_ _ _
      exact h.wallTime
    · cases ht
  · cases ht

end

theorem InPhase.onUpload {f : Upload → Option Upload} (h : s.InPhase wallTime written)
    (ht : s.onUpload f = some t) : t.InPhase wallTime written := by
  unfold UploadSystem.onUpload at ht
  split at ht
  · obtain ⟨u, -, rfl⟩ := Option.map_eq_some_iff.1 ht
    exact h.of_eq rfl rfl
  · cases ht

/-- What is written to a device whose guest waits in a call does not come to it. -/
theorem InPhase.of_blocked {written' : List Bytes} (h : s.InPhase wallTime written)
    (hblocked : ¬∃ output, s.guest = .running output) : s.InPhase wallTime written' :=
  ⟨h.wallTime, h.blocked, h.sending, fun hrunning => absurd hrunning hblocked⟩

theorem InPhase.step (h : s.InPhase wallTime written) (event : Step)
    (hwrite : ∀ buf, event = .write buf → ¬s.Begun) :
    (s.step codec event).InPhase wallTime (written ++ writes [event]) := by
  have hother : ∀ {x : Option UploadSystem}, (∀ t, x = some t → t.InPhase wallTime written) →
      (x.getD s).InPhase wallTime (written ++ []) := by
    intro x hx
    rw [append_nil]
    cases x with
    | none => exact h
    | some t => exact hx t rfl
  have hcall : ∀ f : UploadSystem → UploadSystem,
      (∀ output, s.guest = .running output → (f s).InPhase wallTime written) →
        ∀ t, s.call f = some t → t.InPhase wallTime written := by
    intro f hf t ht
    unfold call at ht
    split at ht
    next output hguest => exact Option.some.inj ht ▸ hf output hguest
    · cases ht
  cases event with
  | write buf =>
    by_cases hrunning : ∃ output, s.guest = .running output
    · obtain ⟨output, hguest⟩ := hrunning
      rw [step_write hguest]
      exact h.write hguest (hwrite buf rfl) buf
    · have hstay : s.step codec (.write buf) = s := by
        unfold UploadSystem.step step? call
        dsimp only
        split
        next output hguest => exact absurd ⟨output, hguest⟩ hrunning
        · rfl
      rw [hstay]
      exact h.of_blocked hrunning
  | read room answer => exact hother (hcall _ fun _ _ => h.read room answer)
  | seek position =>
    refine hother (hcall (fun s => { s with
      device := { s.device with cursor := position }
      guest := .running none }) fun output hguest => ?_)
    refine ⟨h.wallTime, fun hnot => absurd ⟨none, rfl⟩ hnot, fun _ _ _ hsending => ?_, fun _ =>
      h.collected ⟨output, hguest⟩⟩
    cases hsending
  | goOn => exact hother fun t ht => h.goOn ht
  | bridge | produce | transport => exact hother fun t ht => h.onUpload ht
  | cancel => exact hother fun t ht => Option.some.inj ht ▸ h.of_eq rfl rfl
  | expire => exact hother fun t ht => h.onUpload ht

theorem inPhase_opened (wallTime : Option ℕ) (cancelled : Bool) :
    ({ opened wallTime with cancelled := cancelled } : UploadSystem).InPhase wallTime [] where
  wallTime := rfl
  blocked _ := rfl
  sending _ _ _ h := by cases h
  collected _ _ _ := rfl

theorem beginWrite_of_begun (h : s.Begun) :
    s.beginWrite = { opened s.device.wallTime with cancelled := s.cancelled } := by
  have hforget : s.forgetResponse =
      { s with device := { s.device with request := [], upload := none }, upload := none } :=
    if_pos h.1
  unfold beginWrite
  rw [hforget]
  rfl

/-- Every run ends in a phase that goes on as if the device had just been opened: it begins when the
response before it has begun to be read, and nothing is written in it behind the beginning of its
own response. -/
theorem exists_phase (codec : DeviceCodec) (wallTime : Option ℕ) (events : List Step) :
    ∃ before phase cancelled, events = before ++ phase ∧
      (before = [] ∨ (runAll (step codec) (opened wallTime) before).Begun) ∧
      runAll (step codec) (opened wallTime) events =
        runAll (step codec) { opened wallTime with cancelled := cancelled } phase ∧
      (∀ a buf b, phase = a ++ .write buf :: b →
        ¬(runAll (step codec) { opened wallTime with cancelled := cancelled } a).Begun) ∧
      (runAll (step codec) (opened wallTime) events).InPhase wallTime (writes phase) := by
  induction events using List.reverseRecOn with
  | nil =>
    refine ⟨[], [], false, rfl, .inl rfl, rfl, fun a buf b h => ?_, inPhase_opened wallTime false⟩
    cases a <;> cases h
  | append_singleton events event ih =>
    obtain ⟨before, phase, cancelled, hevents, hbefore, hstate, hsingle, hphase⟩ := ih
    rw [runAll_concat]
    generalize hs : runAll (step codec) (opened wallTime) events = s at hstate hphase
    by_cases hcut : ∃ buf, event = .write buf ∧ s.Begun
    · -- the write is the first of a new phase
      obtain ⟨buf, rfl, hbegun⟩ := hcut
      have hrunning : ∃ output, s.guest = .running output := by
        by_contra hblocked
        have hsome := hbegun.1
        rw [hphase.blocked hblocked] at hsome
        exact Bool.false_ne_true hsome
      have hidle : s.Idle := ⟨hrunning, .inl hbegun⟩
      have hfresh : s.step codec (.write buf) =
          step codec { opened wallTime with cancelled := s.cancelled } (.write buf) := by
        rw [hidle.step_write, ← hidle.collecting.1.step_write, beginWrite_of_begun hbegun,
          hphase.wallTime]
      have hnot : ¬({ opened wallTime with cancelled := s.cancelled } : UploadSystem).Begun :=
        fun h => Bool.false_ne_true h.1
      refine ⟨events, [.write buf], s.cancelled, rfl, .inr (hs ▸ hbegun), hfresh,
        fun a buf' b h => ?_, ?_⟩
      · cases a with
        | nil => exact hnot
        | cons first a =>
          have hrest := (List.cons.inj h).2
          cases a <;> cases hrest
      · rw [hfresh]
        exact (inPhase_opened wallTime s.cancelled).step (.write buf) fun _ _ => hnot
    · -- the phase goes on
      have hwrite : ∀ buf, event = .write buf → ¬s.Begun := fun buf h hbegun =>
        hcut ⟨buf, h, hbegun⟩
      refine ⟨before, phase ++ [event], cancelled, ?_, hbefore, ?_, fun a buf b h => ?_, ?_⟩
      · rw [hevents, append_assoc]
      · rw [runAll_concat, hstate]
      · rcases eq_nil_or_concat' b with rfl | ⟨b, last, rfl⟩
        · obtain ⟨rfl, hlast⟩ := append_inj' h rfl
          rw [← hstate]
          exact hwrite buf (List.cons.inj hlast).1
        · rw [← cons_append, ← append_assoc] at h
          exact hsingle a buf b (append_inj' h rfl).1
      · rw [show writes (phase ++ [event]) = writes phase ++ writes [event] from
          filterMap_append]
        exact hphase.step event hwrite

end InPhase

/-- Requests of a device do not depend on the boundaries of its writes. -/
structure IgnoresBoundaries (codec : DeviceCodec) (wallTime : Option ℕ) : Prop where
  /-- Fragments of a document that is a fragment itself come to the state of the document, and only
  they come to a read that dispatches it. -/
  cut : ∀ s : UploadSystem, s.Idle → ∀ doc pieces, IsFragment codec doc → pieces ≠ [] →
    pieces.flatten = doc →
    ((∀ piece ∈ pieces, IsFragment codec piece) →
      runAll (step codec) s (pieces.map .write) = s.step codec (.write doc)) ∧
    ((runAll (step codec) s (pieces.map .write)).Dispatches doc ↔
      ∀ piece ∈ pieces, IsFragment codec piece)
  /-- A read returns what becomes of the document. -/
  read : ∀ (s : UploadSystem) (doc : Bytes), s.Dispatches doc →
    ∀ (handle : Bytes → Bytes) (room : ℕ),
    s.readBy codec (.read room (handle s.device.request)) = some ((handle doc).take room)
  /-- Every run ends in a phase that goes on as on a device that has just been opened. It begins
  when the response before it has begun to be read, and nothing is written in it behind the
  beginning of its own response; a request that is dispatched is what was written in it. -/
  phases : ∀ events, ∃ before phase cancelled, events = before ++ phase ∧
    (before = [] ∨ (runAll (step codec) (opened wallTime) before).Begun) ∧
    runAll (step codec) (opened wallTime) events =
      runAll (step codec) { opened wallTime with cancelled := cancelled } phase ∧
    (∀ a buf b, phase = a ++ .write buf :: b →
      ¬(runAll (step codec) { opened wallTime with cancelled := cancelled } a).Begun) ∧
    ∀ request, (runAll (step codec) (opened wallTime) events).Dispatches request →
      request = (writes phase).flatten

/-- A device does not see how a request was cut, as long as no part of it is a frame. -/
theorem requests_ignoreBoundaries (codec : DeviceCodec) (wallTime : Option ℕ) :
    IgnoresBoundaries codec wallTime where
  cut s hidle doc pieces hdoc hne hflatten := by
    subst hflatten
    refine ⟨fun hpieces => ?_, hidle.dispatches_iff hne⟩
    rw [hidle.runAll_writes hne hpieces, hidle.step_write,
      writeFirstFrame_of_fragment hdoc hidle.collecting.1.guest]
  read s doc h handle room := h.readBy handle room
  phases events := by
    obtain ⟨before, phase, cancelled, hevents, hbefore, hstate, hsingle, hphase⟩ :=
      exists_phase codec wallTime events
    refine ⟨before, phase, cancelled, hevents, hbefore, hstate, hsingle, fun request h => ?_⟩
    rw [← h.request]
    exact hphase.collected h.guest h.response h.upload

/-! ### Documents with a type -/

def typedDocument : Bytes :=
  encodeText "\x7b\"method\":\"GET\",\"url\":\"http://h/\",\"type\":\"page\"\x7d".toList

/-- A document in three writes, of which the second is an object with a type. -/
def nestedPieces : List Bytes :=
  ["\x7b\"method\":\"GET\",\"url\":\"http://h/\",\"meta\":", "\x7b\"type\":\"page\"\x7d",
    "\x7d"].map fun text => encodeText text.toList

/-- What the parser of frames says of a text that is no frame. -/
def typedError (buf : Bytes) : String :=
  if buf = typedDocument ∨ buf = nestedPieces[1] then
    "unknown variant `page`, expected one of `request`, `body_chunk`, `body_end`"
  else if buf = nestedPieces.flatten then
    "missing field `type` at line 1 column 57"
  else if buf = nestedPieces[2] then
    "expected value at line 1 column 1"
  else if buf = typedDocument.drop 10 then
    "invalid type: string \"GET\", expected internally tagged enum HttpBridgeDeviceStreamFrame"
  else
    "EOF while parsing a value at line 1 column " ++ toString buf.length

/-- The parsers on these documents and on their parts, with the printer of `shortCodec`. -/
def typedCodec : DeviceCodec :=
  { shortCodec with
    frame := fun buf => .error (typedError buf)
    declaresFrame := fun buf => buf = typedDocument ∨ buf = nestedPieces[1] }

theorem isFragment_typedCodec :
    IsFragment typedCodec buf ↔ ¬(buf = typedDocument ∨ buf = nestedPieces[1]) := by
  refine ⟨fun h => of_decide_eq_false h.2, fun h => ⟨⟨typedError buf, rfl⟩, ?_⟩⟩
  exact decide_eq_false h

/-- A document with a field `type` is refused at once and dispatched if it comes in two writes; one
in which a nested object has that field is dispatched at once, and refused if the object is a
write. -/
theorem not_requests_ignoreBoundaries :
    (opened none).Idle ∧
      ((runAll (step typedCodec) (opened none)
          ([typedDocument.take 10, typedDocument.drop 10].map .write)).Dispatches typedDocument ∧
        ¬((opened none).step typedCodec (.write typedDocument)).Dispatches typedDocument) ∧
      ((opened none).step typedCodec (.write nestedPieces.flatten)).Dispatches
          nestedPieces.flatten ∧
        ¬(runAll (step typedCodec) (opened none) (nestedPieces.map .write)).Dispatches
          nestedPieces.flatten := by
  have hidle : (opened none).Idle := ⟨⟨none, rfl⟩, .inr ⟨rfl, rfl, rfl⟩⟩
  have hcut : ∀ pieces : List Bytes, pieces ≠ [] →
      ((runAll (step typedCodec) (opened none) (pieces.map .write)).Dispatches pieces.flatten ↔
        ∀ piece ∈ pieces, ¬(piece = typedDocument ∨ piece = nestedPieces[1])) := fun pieces hne =>
    (hidle.dispatches_iff hne).trans (forall₂_congr fun _ _ => isFragment_typedCodec)
  have honce : ∀ doc : Bytes, ((opened none).step typedCodec (.write doc)).Dispatches doc ↔
      ¬(doc = typedDocument ∨ doc = nestedPieces[1]) := fun doc => by
    have hdoc := hcut [doc] (cons_ne_nil doc [])
    rw [flatten_singleton, forall_mem_singleton] at hdoc
    exact hdoc
  refine ⟨hidle, ⟨?_, fun h => ?_⟩, ?_, fun h => ?_⟩
  · have htyped := hcut [typedDocument.take 10, typedDocument.drop 10] (cons_ne_nil _ _)
    rw [flatten_cons, flatten_singleton, take_append_drop] at htyped
    exact htyped.2 (by decide)
  · exact (honce typedDocument).1 h (.inl rfl)
  · exact (honce nestedPieces.flatten).2 (by decide)
  · have hpieces := (hcut nestedPieces (cons_ne_nil _ _)).1 h
    exact hpieces nestedPieces[1] (getElem_mem _) (.inr rfl)

end UploadSystem

end WasmHost

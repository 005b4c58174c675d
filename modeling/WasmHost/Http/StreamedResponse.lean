import WasmHost.Http.GatewayDecoder

/-!
# Streamed and buffered responses of the gateway

What a requester gets of a stream of frames is what it gets of the buffered response with the same
status, headers and body.

* `streamedAsBuffered`: it does, however the stream is cut, as long as no push is beyond the limit
  together with what is left of the last line; and a stream in any other order is refused.
* `not_streamedAsBuffered`: a frame that is longer than the limit.
-/

namespace WasmHost

open List GatewayStreamResponseDecoder

/-! ### Frames of a stream -/

/-- The lines of a stream that are not empty. -/
def streamLines (lines : List Bytes) : List Bytes := (lines.map lineContent).filter (· ≠ [])

/-- The frames of a stream, with nothing but white space behind the last line. -/
structure IsStream (codec : GatewayCodec) (text : Bytes)
    (frames : List GatewayStreamWireResponseFrame) : Prop where
  lines : (streamLines (text.splitOn 10).dropLast).mapM codec.frame = .ok frames
  rest : isBlank (LineReader.lastLine 10 text) = true

/-- The frames of a response. -/
def responseFrames (status : ℕ) (headers : List GatewayWireHeader) (bodies : List Text) :
    List GatewayStreamWireResponseFrame :=
  .response status headers :: (bodies.map .bodyChunk ++ [.bodyEnd])

/-- A body that is sent at once has the chunks of the stream, or all of them together; where they
are empty it can be left out. -/
inductive BufferedBody (codec : GatewayCodec) (bodies : List Text) :
    Option Text → Option (List Text) → Prop
  | chunks : BufferedBody codec bodies none (some bodies)
  | complete (body : Text) (chunks : List Bytes)
      (hchunks : bodies.mapM (decodeGatewayBody codec) = .ok chunks)
      (hbody : decodeGatewayBody codec body = .ok chunks.flatten) :
      BufferedBody codec bodies (some body) none
  | absent (chunks : List Bytes) (hchunks : bodies.mapM (decodeGatewayBody codec) = .ok chunks)
      (hempty : chunks.flatten = []) : BufferedBody codec bodies none none

/-- The buffered response with a status, headers and one of these bodies. -/
def bufferedResponse (status : ℕ) (headers : List GatewayWireHeader) (body : Option Text)
    (chunks : Option (List Text)) : GatewayWireResponse where
  ok := true
  response := some ⟨status, headers, body, chunks⟩
  error := none

/-- The same is returned, and where that is no error, the requester puts the same response
together. -/
structure SameResponse (x y : GatewayOutcome) : Prop where
  result : x.result = y.result
  response : x.result = .ok () → ∀ limit, ResponseCall.assemble limit [] x.sent =
    ResponseCall.assemble limit [] y.sent

/-- The requester takes every event. -/
def GatewayHttpResponseWriter.Listening (w : GatewayHttpResponseWriter) : Prop :=
  ∀ sent event, w.answer sent event = .ok ()

section Frames

variable {codec : GatewayCodec} {w : GatewayHttpResponseWriter} {s t : GatewayStreamResponseDecoder}
    {body : Option Text} {parts : Option (List Text)}

variable {lines chunks pieces : List Bytes} {frames : List GatewayStreamWireResponseFrame}
    {bodies : List Text} {error : HttpBridgeError} {wire : List GatewayWireHeader}
    {headers : List HttpHeader} {status : ℕ}

/-- The lines of a stream are read as its frames. -/
theorem foldlM_readLine (h : (streamLines lines).mapM codec.frame = .ok frames) :
    lines.foldlM (readLine codec w) s = frames.foldlM (apply codec w) s := by
  induction lines generalizing s frames with
  | nil =>
    obtain rfl := Except.ok.inj h
    rfl
  | cons line lines ih =>
    rw [foldlM_cons]
    by_cases hline : lineContent line = []
    · have hlines : streamLines (line :: lines) = streamLines lines := by
        unfold streamLines
        rw [map_cons, filter_cons_of_neg (by simpa using hline)]
      have hread : readLine codec w s line = .ok s := if_pos hline
      rw [hlines] at h
      rw [hread]
      exact ih h
    · have hlines : streamLines (line :: lines) = lineContent line :: streamLines lines := by
        unfold streamLines
        rw [map_cons, filter_cons_of_pos (by simpa using hline)]
      rw [hlines, Except.mapM_eq_ok_iff] at h
      cases h with
      | @cons _ frame _ frames hframe hrest =>
        have hread : readLine codec w s line = s.apply codec w frame := by
          unfold readLine
          rw [if_neg hline, hframe]
          rfl
        rw [hread, foldlM_cons]
        cases s.apply codec w frame with
        | error => rfl
        | ok => exact ih (Except.mapM_eq_ok_iff.2 hrest)

/-- Lines that are all read are frames. -/
theorem exists_frames_of_foldlM (h : lines.foldlM (readLine codec w) s = .ok t) :
    ∃ frames, (streamLines lines).mapM codec.frame = .ok frames := by
  induction lines generalizing s with
  | nil => exact ⟨[], rfl⟩
  | cons line lines ih =>
    obtain ⟨s', hline, hrest⟩ := Except.bind_eq_ok_iff.1 h
    obtain ⟨frames, hframes⟩ := ih hrest
    unfold streamLines at hframes ⊢
    by_cases hblank : lineContent line = []
    · rw [map_cons, filter_cons_of_neg (by simpa using hblank)]
      exact ⟨frames, hframes⟩
    · rw [map_cons, filter_cons_of_pos (by simpa using hblank)]
      unfold readLine at hline
      rw [if_neg hblank] at hline
      obtain ⟨frame, hframe, -⟩ := Except.bind_eq_ok_iff.1 hline
      rw [Except.mapError_eq_ok_iff] at hframe
      exact ⟨frame :: frames, Except.mapM_eq_ok_iff.2
        (.cons hframe (Except.mapM_eq_ok_iff.1 hframes))⟩

/-! ### The order of the frames -/

/-- What a frame that is taken does. -/
inductive Applied (codec : GatewayCodec) (w : GatewayHttpResponseWriter)
    (s : GatewayStreamResponseDecoder) : GatewayStreamWireResponseFrame →
    GatewayStreamResponseDecoder → Prop
  | response {status : ℕ} {wire : List GatewayWireHeader} {headers : List HttpHeader}
      (hbefore : s.response = none) (hheaders : decodeHeaders wire = .ok headers) :
      Applied codec w s (.response status wire) { s with response := some (status, headers) }
  | bodyChunk {body : Text} {chunk : Bytes} {sent : List HttpBridgeResponseEvent}
      (hopen : s.response.isSome = true) (hbody : decodeGatewayBody codec body = .ok chunk)
      (hsent : w.writeBodyChunk s.sent chunk = .ok sent) :
      Applied codec w s (.bodyChunk body) { s with sent := sent }
  | bodyEnd (hopen : s.response.isSome = true) :
      Applied codec w s .bodyEnd { s with completed := true }

theorem applied_of_apply {frame : GatewayStreamWireResponseFrame}
    (h : s.apply codec w frame = .ok t) : s.completed = false ∧ Applied codec w s frame t := by
  unfold apply at h
  by_cases hcompleted : s.completed = true
  · rw [if_pos hcompleted] at h
    cases h
  rw [if_neg hcompleted] at h
  refine ⟨Bool.eq_false_of_not_eq_true hcompleted, ?_⟩
  have hopen : ¬s.response.isNone = true → s.response.isSome = true := fun hresponse => by
    rwa [Option.isNone_iff_eq_none, ← Option.not_isSome_iff_eq_none, not_not] at hresponse
  cases frame with
  | response =>
    dsimp only at h
    split_ifs at h with hresponse
    obtain ⟨headers', hheaders, hok⟩ := Except.bind_eq_ok_iff.1 h
    obtain rfl := Except.ok.inj hok
    exact .response (Option.not_isSome_iff_eq_none.1 hresponse)
      (Except.mapError_eq_ok_iff.1 hheaders)
  | bodyChunk =>
    dsimp only at h
    split_ifs at h with hresponse
    obtain ⟨chunk, hchunk, hrest⟩ := Except.bind_eq_ok_iff.1 h
    obtain ⟨sent, hsent, hok⟩ := Except.bind_eq_ok_iff.1 hrest
    obtain rfl := Except.ok.inj hok
    exact .bodyChunk (hopen hresponse) (Except.mapError_eq_ok_iff.1 hchunk) hsent
  | bodyEnd =>
    dsimp only at h
    split_ifs at h with hresponse
    obtain rfl := Except.ok.inj h
    exact .bodyEnd (hopen hresponse)
  | error => cases h

/-- No frame is taken behind the end. -/
theorem eq_nil_of_completed (hcompleted : s.completed = true)
    (h : frames.foldlM (apply codec w) s = .ok t) : frames = [] := by
  cases frames with
  | nil => rfl
  | cons =>
    obtain ⟨s', happly, -⟩ := Except.bind_eq_ok_iff.1 h
    exact absurd hcompleted (Bool.eq_false_iff.1 (applied_of_apply happly).1)

/-- Behind the response there are parts of the body, and the end. -/
theorem exists_bodies (hcompleted : s.completed = false) (hopen : s.response.isSome = true)
    (h : frames.foldlM (apply codec w) s = .ok t) (hend : t.completed = true) :
    ∃ bodies : List Text, frames = bodies.map .bodyChunk ++ [.bodyEnd] := by
  induction frames generalizing s with
  | nil =>
    obtain rfl := Except.ok.inj h
    exact absurd hend (Bool.eq_false_iff.1 hcompleted)
  | cons frame frames ih =>
    obtain ⟨s', happly, hrest⟩ := Except.bind_eq_ok_iff.1 h
    cases (applied_of_apply happly).2 with
    | response hbefore hheaders =>
      rw [hbefore] at hopen
      cases hopen
    | @bodyChunk body chunk sent _ hbody hsent =>
      obtain ⟨bodies, rfl⟩ := @ih { s with sent := sent } hcompleted hopen hrest
      exact ⟨body :: bodies, rfl⟩
    | bodyEnd =>
      obtain rfl := eq_nil_of_completed rfl hrest
      exact ⟨[], rfl⟩

/-- The frames of a stream that is completed are those of a response. -/
theorem exists_responseFrames (h : frames.foldlM (apply codec w) .new = .ok t)
    (hend : t.completed = true) :
    ∃ status headers bodies, frames = responseFrames status headers bodies := by
  cases frames with
  | nil =>
    obtain rfl := Except.ok.inj h
    cases hend
  | cons =>
    obtain ⟨s', happly, hrest⟩ := Except.bind_eq_ok_iff.1 h
    cases (applied_of_apply happly).2 with
    | @response status wire headers hbefore hheaders =>
      obtain ⟨bodies, rfl⟩ := exists_bodies rfl rfl hrest hend
      exact ⟨status, wire, bodies, rfl⟩
    | bodyChunk hopen | bodyEnd hopen => cases hopen

/-! ### The frames of a response -/

section

variable (hcompleted : s.completed = false)
include hcompleted

theorem apply_response (hbefore : s.response = none)
    (status : ℕ) (headers : List GatewayWireHeader) :
    s.apply codec w (.response status headers) =
      ((decodeHeaders headers).mapError s.fail).bind fun headers =>
        .ok { s with response := some (status, headers) } := by
  unfold apply
  rw [if_neg (by rw [hcompleted]; exact Bool.false_ne_true)]
  dsimp only
  rw [if_neg (by rw [hbefore]; exact Bool.false_ne_true)]
  rfl

variable (hopen : s.response.isNone = false)
include hopen

theorem apply_bodyChunk (body : Text) : s.apply codec w (.bodyChunk body) =
      ((decodeGatewayBody codec body).mapError s.fail).bind fun chunk =>
        (w.writeBodyChunk s.sent chunk).bind fun sent => .ok { s with sent := sent } := by
  unfold apply
  rw [if_neg (by rw [hcompleted]; exact Bool.false_ne_true)]
  dsimp only
  rw [if_neg (by rw [hopen]; exact Bool.false_ne_true)]
  rfl

theorem apply_bodyEnd :
    s.apply codec w .bodyEnd = .ok { s with completed := true } := by
  unfold apply
  rw [if_neg (by rw [hcompleted]; exact Bool.false_ne_true)]
  rw [if_neg (by rw [hopen]; exact Bool.false_ne_true)]

/-- Bodies that are all decoded are written one by one. -/
theorem foldlM_bodyChunk (h : bodies.mapM (decodeGatewayBody codec) = .ok chunks) :
    (bodies.map .bodyChunk).foldlM (apply codec w) s =
      (chunks.foldlM w.writeBodyChunk s.sent).bind fun sent => .ok { s with sent := sent } := by
  rw [Except.mapM_eq_ok_iff] at h
  induction h generalizing s with
  | nil => rfl
  | @cons body chunk bodies chunks hbody hrest ih =>
    rw [map_cons, foldlM_cons, foldlM_cons, apply_bodyChunk hcompleted hopen, hbody]
    show ((w.writeBodyChunk s.sent chunk).bind _).bind _ =
      ((w.writeBodyChunk s.sent chunk).bind _).bind _
    cases w.writeBodyChunk s.sent chunk with
    | error => rfl
    | ok => exact ih hcompleted hopen

end

/-- A requester that takes every event gets the chunks. -/
theorem foldlM_write_of_listening (hw : w.Listening) (chunks : List Bytes)
    (sent : List HttpBridgeResponseEvent) :
    chunks.foldlM w.writeBodyChunk sent = .ok (sent ++ chunks.map .body) := by
  induction chunks generalizing sent with
  | nil =>
    rw [map_nil, append_nil]
    rfl
  | cons chunk chunks ih =>
    have hwrite : w.writeBodyChunk sent chunk = .ok (sent ++ [.body chunk]) := by
      unfold GatewayHttpResponseWriter.writeBodyChunk GatewayHttpResponseWriter.send
      rw [hw]
    rw [foldlM_cons, hwrite]
    refine (ih _).trans ?_
    rw [append_assoc]
    rfl

/-- A body that is not decoded ends the stream. -/
theorem foldlM_bodyChunk_of_error (hw : w.Listening) (hcompleted : s.completed = false)
    (hopen : s.response.isNone = false) (h : bodies.mapM (decodeGatewayBody codec) = .error error) :
    ∃ sent, (bodies.map .bodyChunk).foldlM (apply codec w) s = .error ⟨error, sent⟩ := by
  induction bodies generalizing s with
  | nil => cases h
  | cons body bodies ih =>
    rw [map_cons, foldlM_cons, apply_bodyChunk hcompleted hopen]
    rw [mapM_cons] at h
    rcases Except.bind_eq_error_iff.1 h with hbody | ⟨chunk, hbody, hrest⟩
    · rw [hbody]
      exact ⟨s.sent, rfl⟩
    · have hbodies : bodies.mapM (decodeGatewayBody codec) = .error error := by
        rcases Except.bind_eq_error_iff.1 hrest with hbodies | ⟨chunks, -, hok⟩
        · exact hbodies
        · cases hok
      obtain ⟨sent, hfold⟩ := @ih
          { s with sent := s.sent ++ [.body chunk] } hcompleted hopen hbodies
      have hwrite : w.writeBodyChunk s.sent chunk = .ok (s.sent ++ [.body chunk]) := by
        unfold GatewayHttpResponseWriter.writeBodyChunk GatewayHttpResponseWriter.send
        rw [hw]
      rw [hbody]
      refine ⟨sent, ?_⟩
      show ((w.writeBodyChunk s.sent chunk).bind _).bind _ = _
      rw [hwrite]
      exact hfold

/-- What the frames of a response come to, with the end of the stream. -/
def readFrames (codec : GatewayCodec) (w : GatewayHttpResponseWriter)
    (frames : List GatewayStreamWireResponseFrame) :
    Except GatewayFailure (List HttpBridgeResponseEvent) :=
  (frames.foldlM (apply codec w) .new).bind fun s => finish w ([], s)

theorem readFrames_of_headers_error {headers : List GatewayWireHeader}
    (h : decodeHeaders headers = .error error) (status : ℕ) (bodies : List Text) :
    readFrames codec w (responseFrames status headers bodies) = .error ⟨error, []⟩ := by
  unfold readFrames responseFrames
  rw [foldlM_cons, apply_response rfl rfl, h]
  rfl

theorem readFrames_of_headers (h : decodeHeaders wire = .ok headers) (status : ℕ)
    (bodies : List Text) :
    readFrames codec w (responseFrames status wire bodies) =
      (((bodies.map .bodyChunk).foldlM (apply codec w) ⟨[], some (status, headers), false⟩).bind
        fun s => s.apply codec w .bodyEnd).bind fun s => finish w ([], s) := by
  unfold readFrames responseFrames
  rw [foldlM_cons, apply_response rfl rfl, h, ← Except.foldlM_concat]
  rfl

theorem readFrames_of_bodies_error (hw : w.Listening) (hheaders : decodeHeaders wire = .ok headers)
    (h : bodies.mapM (decodeGatewayBody codec) = .error error) (status : ℕ) :
    ∃ sent, readFrames codec w (responseFrames status wire bodies) = .error ⟨error, sent⟩ := by
  obtain ⟨sent, hfold⟩ := foldlM_bodyChunk_of_error (s := ⟨[], some (status, headers), false⟩) hw
    rfl rfl h
  rw [readFrames_of_headers hheaders, hfold]
  exact ⟨sent, rfl⟩

/-- A response that is decoded is passed on chunk by chunk. -/
theorem readFrames_responseFrames (hheaders : decodeHeaders wire = .ok headers)
    (h : bodies.mapM (decodeGatewayBody codec) = .ok chunks) (status : ℕ) :
    readFrames codec w (responseFrames status wire bodies) =
      (chunks.foldlM w.writeBodyChunk []).bind fun sent => w.finish sent status headers [] := by
  rw [readFrames_of_headers hheaders, foldlM_bodyChunk rfl rfl h]
  cases chunks.foldlM w.writeBodyChunk [] with
  | error => rfl
  | ok sent =>
    have hend : apply codec w ⟨sent, some (status, headers), false⟩ .bodyEnd =
        .ok ⟨sent, some (status, headers), true⟩ := apply_bodyEnd rfl rfl
    change (apply codec w ⟨sent, some (status, headers), false⟩ .bodyEnd).bind _ = _
    rw [hend]
    rfl

/-! ### The stream -/

theorem splitOn_eq_dropLast_append (text : Bytes) :
    text.splitOn 10 = (text.splitOn 10).dropLast ++ [LineReader.lastLine 10 text] := by
  have hne : text.splitOn 10 ≠ [] := splitOn_ne_nil 10 text
  rw [LineReader.lastLine, List.getLast?_eq_getLast_of_ne_nil hne]
  exact (dropLast_append_getLast hne).symm

theorem push_eq : push codec w = LineReader.readChunk 10 (readLine codec w)
    httpGatewayResponseBodyLimit
    (fail · (.responseTooLarge "HTTP gateway stream frame exceeded bridge limit")) := rfl

/-- A stream that fits is read line by line. -/
theorem foldlM_push (h : LineReader.Fits 10 httpGatewayResponseBodyLimit [] pieces) :
    pieces.foldlM (push codec w) ([], s) =
      ((pieces.flatten.splitOn 10).dropLast.foldlM (readLine codec w) s).bind fun s' =>
        .ok (LineReader.lastLine 10 pieces.flatten, s') := by
  rw [push_eq, LineReader.foldlM_readChunk_of_fits not_mem_nil h]
  exact LineReader.readLines_eq_foldlM not_mem_nil (splitOn_eq_dropLast_append _)

theorem finish_of_isBlank {rest : Bytes} (h : isBlank rest = true) :
    finish w (rest, s) = finish w ([], s) := by
  unfold finish
  rw [h]
  rfl

theorem respondStreamed_of_isStream
    (hfits : LineReader.Fits 10 httpGatewayResponseBodyLimit [] pieces)
    (h : IsStream codec pieces.flatten frames) :
    respondStreamed codec w pieces = .of (readFrames codec w frames) := by
  unfold respondStreamed readFrames
  rw [foldlM_push hfits, foldlM_readLine h.lines]
  cases frames.foldlM (apply codec w) .new with
  | error => rfl
  | ok => exact congrArg GatewayOutcome.of (finish_of_isBlank h.rest)

/-- A stream that is taken is one of a response. -/
theorem isStream_of_result (h : (respondStreamed codec w pieces).result = .ok ()) :
    ∃ status headers bodies,
      IsStream codec pieces.flatten (responseFrames status headers bodies) := by
  unfold respondStreamed at h
  cases hpush : pieces.foldlM (push codec w) ([], .new) with
  | error =>
    rw [hpush] at h
    cases h
  | ok r =>
    rw [hpush] at h
    rw [push_eq] at hpush
    have hread : LineReader.readLines 10 (readLine codec w) [] .new pieces.flatten = .ok r :=
      LineReader.foldlM_readChunk_eq_readLines not_mem_nil hpush
    have hrest := LineReader.eq_lastLine_of_readLines not_mem_nil hread
    obtain ⟨lines, hsplit, hlines⟩ := LineReader.splitOn_of_readLines not_mem_nil hread
    change (GatewayOutcome.of (finish w r)).result = .ok () at h
    unfold finish at h
    split_ifs at h with hblank hcompleted
    · cases h
    · cases h
    · have hdrop : (pieces.flatten.splitOn 10).dropLast = lines := by
        rw [← nil_append pieces.flatten, hsplit, dropLast_concat]
      obtain ⟨frames, hframes⟩ := exists_frames_of_foldlM hlines
      rw [foldlM_readLine hframes] at hlines
      obtain ⟨status, headers, bodies, rfl⟩ :=
        exists_responseFrames hlines (Bool.eq_true_of_not_eq_false hcompleted)
      refine ⟨status, headers, bodies, hdrop ▸ hframes, ?_⟩
      rw [← nil_append pieces.flatten, ← hrest]
      exact Bool.eq_true_of_not_eq_false hblank

/-! ### The buffered response -/

theorem finish_eq (sent : List HttpBridgeResponseEvent) (h : 100 ≤ status ∧ status ≤ 599)
    (headers : List HttpHeader) (body : Bytes) :
    w.finish sent status headers body = w.send sent (.complete (.ok ⟨status, headers, body⟩)) := by
  unfold GatewayHttpResponseWriter.finish HttpResponse.new
  rw [if_pos h]
  rfl

theorem finish_of_status (sent : List HttpBridgeResponseEvent) (h : ¬(100 ≤ status ∧ status ≤ 599))
    (headers : List HttpHeader) (body : Bytes) :
    w.finish sent status headers body = .error ⟨invalidStatus status, sent⟩ := by
  unfold GatewayHttpResponseWriter.finish HttpResponse.new
  rw [if_neg h]
  rfl

/-- What a buffered response comes to once its headers are decoded. -/
theorem respondBuffered_eq (h : decodeHeaders wire = .ok headers) (status : ℕ) (body : Option Text)
    (chunks : Option (List Text)) :
    respondBuffered codec w (bufferedResponse status wire body chunks) =
      .of (((decodeGatewayResponseBody codec status headers body chunks).mapError (⟨·, []⟩)).bind
        w.respond) := by
  have hdecode : decodeGatewayWireResponse codec (bufferedResponse status wire body chunks) =
      (decodeHeaders wire).bind fun headers =>
        decodeGatewayResponseBody codec status headers body chunks := rfl
  unfold respondBuffered
  rw [hdecode, h]
  rfl

theorem respondBuffered_of_headers_error (h : decodeHeaders wire = .error error) (status : ℕ)
    (body : Option Text) (chunks : Option (List Text)) :
    respondBuffered codec w (bufferedResponse status wire body chunks) = ⟨[], .error error⟩ := by
  have hdecode : decodeGatewayWireResponse codec (bufferedResponse status wire body chunks) =
      (decodeHeaders wire).bind fun headers =>
        decodeGatewayResponseBody codec status headers body chunks := rfl
  unfold respondBuffered
  rw [hdecode, h]
  rfl

theorem decodeGatewayResponseBody_chunks (status : ℕ) (headers : List HttpHeader)
    (bodies : List Text) :
    decodeGatewayResponseBody codec status headers none (some bodies) =
      (bodies.mapM (decodeGatewayBody codec)).bind fun chunks =>
        GatewayHttpResponse.new status headers (.chunks chunks) := rfl

/-- A body that is sent at once, or is left out. -/
theorem decodeGatewayResponseBody_of_bufferedBody (status : ℕ) (headers : List HttpHeader)
    (h : bodies.mapM (decodeGatewayBody codec) = .ok chunks)
    (hbody : BufferedBody codec bodies body parts) :
    decodeGatewayResponseBody codec status headers body parts =
      GatewayHttpResponse.new status headers (.chunks chunks) ∨
    decodeGatewayResponseBody codec status headers body parts =
      GatewayHttpResponse.new status headers (.complete chunks.flatten) := by
  cases hbody with
  | chunks =>
    rw [decodeGatewayResponseBody_chunks, h]
    exact .inl rfl
  | complete body chunks' hchunks hbody =>
    obtain rfl := Except.ok.inj (hchunks.symm.trans h)
    refine .inr ?_
    change (decodeGatewayBody codec body).bind _ = _
    rw [hbody]
    rfl
  | absent chunks' hchunks hempty =>
    obtain rfl := Except.ok.inj (hchunks.symm.trans h)
    rw [hempty]
    exact .inr rfl

theorem gatewayHttpResponse_new (h : 100 ≤ status ∧ status ≤ 599) (headers : List HttpHeader)
    (body : GatewayHttpResponseBody) :
    GatewayHttpResponse.new status headers body = .ok ⟨status, headers, body⟩ := if_pos h

theorem gatewayHttpResponse_new_of_status (h : ¬(100 ≤ status ∧ status ≤ 599))
    (headers : List HttpHeader) (body : GatewayHttpResponseBody) :
    GatewayHttpResponse.new status headers body = .error (invalidStatus status) := if_neg h

/-- The chunks of a response are passed on as those of a stream. -/
theorem readFrames_eq_respondBuffered (hheaders : decodeHeaders wire = .ok headers)
    (h : bodies.mapM (decodeGatewayBody codec) = .ok chunks) (hstatus : 100 ≤ status ∧ status ≤ 599)
    :
    .of (readFrames codec w (responseFrames status wire bodies)) =
      respondBuffered codec w (bufferedResponse status wire none (some bodies)) := by
  rw [readFrames_responseFrames hheaders h, respondBuffered_eq hheaders,
    decodeGatewayResponseBody_chunks, h]
  change _ = GatewayOutcome.of (((GatewayHttpResponse.new status headers _).mapError _).bind _)
  rw [gatewayHttpResponse_new hstatus]
  rfl

/-- What a requester that takes every event gets of a response in chunks. -/
theorem pass_chunks (hw : w.Listening) (hstatus : 100 ≤ status ∧ status ≤ 599)
    (headers : List HttpHeader) (chunks : List Bytes) :
    GatewayOutcome.of ((chunks.foldlM w.writeBodyChunk []).bind fun sent =>
        w.finish sent status headers []) =
      ⟨ResponseCall.responseEvents chunks (.ok ⟨status, headers, []⟩), .ok ()⟩ := by
  rw [foldlM_write_of_listening hw]
  change GatewayOutcome.of (w.finish _ status headers []) = _
  rw [finish_eq _ hstatus]
  unfold GatewayHttpResponseWriter.send
  rw [hw]
  rfl

/-- What it gets of a response at once. -/
theorem pass_complete (hw : w.Listening) (hstatus : 100 ≤ status ∧ status ≤ 599)
    (headers : List HttpHeader) (body : Bytes) :
    GatewayOutcome.of (w.finish [] status headers body) =
      ⟨ResponseCall.responseEvents [] (.ok ⟨status, headers, body⟩), .ok ()⟩ := by
  rw [finish_eq _ hstatus]
  unfold GatewayHttpResponseWriter.send
  rw [hw]
  rfl

/-- A requester puts the same together of the chunks and of the whole. -/
theorem assemble_flatten (limit status : ℕ) (headers : List HttpHeader) (chunks : List Bytes) :
    ResponseCall.assemble limit []
        (ResponseCall.responseEvents chunks (.ok ⟨status, headers, []⟩)) =
      ResponseCall.assemble limit []
        (ResponseCall.responseEvents [] (.ok ⟨status, headers, chunks.flatten⟩)) := by
  rw [← append_nil (ResponseCall.responseEvents chunks _),
    ← append_nil (ResponseCall.responseEvents [] _),
    ResponseCall.assemble_responseEvents (Nat.zero_le _),
    ResponseCall.assemble_responseEvents (Nat.zero_le _)]
  simp [ResponseCall.completed]

/-- A stream with the frames of a response and a buffered response with the same status, headers and
body are the same to a requester that takes every event. -/
theorem sameResponse (hw : w.Listening) (status : ℕ) (wire : List GatewayWireHeader)
    (hbody : BufferedBody codec bodies body parts) :
    SameResponse (.of (readFrames codec w (responseFrames status wire bodies)))
      (respondBuffered codec w (bufferedResponse status wire body parts)) := by
  cases hheaders : decodeHeaders wire with
  | error =>
    rw [readFrames_of_headers_error hheaders, respondBuffered_of_headers_error hheaders]
    exact ⟨rfl, fun h => by cases h⟩
  | ok headers =>
    cases hbodies : bodies.mapM (decodeGatewayBody codec) with
    | error =>
      obtain ⟨sent, hread⟩ := readFrames_of_bodies_error hw hheaders hbodies status
      rw [hread]
      cases hbody with
      | chunks =>
        rw [respondBuffered_eq hheaders, decodeGatewayResponseBody_chunks, hbodies]
        exact ⟨rfl, fun h => by cases h⟩
      | complete _ _ hchunks | absent _ hchunks =>
        rw [hchunks] at hbodies
        cases hbodies
    | ok chunks =>
      have hform := decodeGatewayResponseBody_of_bufferedBody status headers hbodies hbody
      rw [respondBuffered_eq hheaders, readFrames_responseFrames hheaders hbodies]
      by_cases hstatus : 100 ≤ status ∧ status ≤ 599
      · rw [pass_chunks hw hstatus]
        rw [gatewayHttpResponse_new hstatus, gatewayHttpResponse_new hstatus] at hform
        rcases hform with hform | hform
        · rw [hform]
          change SameResponse _
            (GatewayOutcome.of ((chunks.foldlM w.writeBodyChunk []).bind fun sent =>
            w.finish sent status headers []))
          rw [pass_chunks hw hstatus]
          exact ⟨rfl, fun _ _ => rfl⟩
        · rw [hform]
          change SameResponse _ (GatewayOutcome.of (w.finish [] status headers chunks.flatten))
          rw [pass_complete hw hstatus]
          exact ⟨rfl, fun _ limit => assemble_flatten limit status headers chunks⟩
      · rw [gatewayHttpResponse_new_of_status hstatus, gatewayHttpResponse_new_of_status hstatus,
          or_self] at hform
        rw [hform, foldlM_write_of_listening hw]
        change SameResponse (GatewayOutcome.of (w.finish _ status headers [])) _
        rw [finish_of_status _ hstatus]
        exact ⟨rfl, fun h => by cases h⟩

theorem exists_of_decode
    {response : GatewayHttpResponse}
    (h : decodeGatewayWireResponse codec (bufferedResponse status wire none (some bodies)) =
      .ok response) :
    ∃ headers chunks, decodeHeaders wire = .ok headers ∧
      bodies.mapM (decodeGatewayBody codec) = .ok chunks ∧ 100 ≤ status ∧ status ≤ 599 := by
  obtain ⟨headers, hheaders, hbody⟩ := Except.bind_eq_ok_iff.1 h
  rw [decodeGatewayResponseBody_chunks] at hbody
  obtain ⟨chunks, hchunks, hnew⟩ := Except.bind_eq_ok_iff.1 hbody
  refine ⟨headers, chunks, hheaders, hchunks, ?_⟩
  by_contra hstatus
  rw [gatewayHttpResponse_new_of_status hstatus] at hnew
  cases hnew

theorem respondStreamed_of_fits (h : LineReader.Fits 10 httpGatewayResponseBodyLimit [] pieces) :
    respondStreamed codec w pieces =
      .of (((pieces.flatten.splitOn 10).dropLast.foldlM (readLine codec w) .new).bind fun s =>
        finish w (LineReader.lastLine 10 pieces.flatten, s)) := by
  unfold respondStreamed
  rw [foldlM_push h]
  cases (pieces.flatten.splitOn 10).dropLast.foldlM (readLine codec w) .new <;> rfl

theorem fits_of_result (h : (respondStreamed codec w pieces).result = .ok ()) :
    LineReader.Fits 10 httpGatewayResponseBodyLimit [] pieces := by
  unfold respondStreamed at h
  cases hpush : pieces.foldlM (push codec w) ([], .new) with
  | error =>
    rw [hpush] at h
    cases h
  | ok =>
    rw [push_eq] at hpush
    exact LineReader.fits_of_foldlM_readChunk not_mem_nil hpush

/-- Frames that are written one a line. -/
theorem isStream_of_lines
    (h : List.Forall₂ (fun line frame => codec.frame line = .ok frame) lines frames)
    (hlines : ∀ line ∈ lines, 10 ∉ line ∧ line ≠ [] ∧ line.getLast? ≠ some 13) :
    IsStream codec (lines.map (· ++ [10])).flatten frames := by
  have hsplit : (lines.map (· ++ [10])).flatten.splitOn 10 = lines ++ [[]] := by
    clear h
    induction lines with
    | nil => rfl
    | cons line lines ih =>
      have hline := (hlines line mem_cons_self).1
      rw [map_cons, flatten_cons, append_assoc, singleton_append,
        SepPath.splitOn_append_sep, SepPath.splitOn_of_not_mem hline,
        ih fun line' h => hlines line' (mem_cons_of_mem _ h)]
      rfl
  refine ⟨?_, ?_⟩
  · have hcontent : lines.map lineContent = lines :=
      (map_congr_left fun line hmem => if_neg (hlines line hmem).2.2).trans (map_id lines)
    have hkept : lines.filter (· ≠ []) = lines :=
      filter_eq_self.2 fun line hmem => decide_eq_true (hlines line hmem).2.1
    rw [hsplit, dropLast_concat]
    unfold streamLines
    rw [hcontent, hkept]
    exact Except.mapM_eq_ok_iff.2 h
  · rw [LineReader.lastLine, hsplit, List.getLast?_concat]
    rfl

end Frames

/-- What a stream that is pushed in pieces means. A piece fits if it is within the limit together
with what is left of the last line before it. -/
structure StreamedAsBuffered (codec : GatewayCodec) (w : GatewayHttpResponseWriter)
    (pieces : List Bytes) : Prop where
  /-- A stream in any other order is refused. -/
  ordered : (respondStreamed codec w pieces).result = .ok () → ∃ status headers bodies,
    IsStream codec pieces.flatten (responseFrames status headers bodies)
  /-- Pieces that fit come to what other such pieces of the stream come to. -/
  cuts : LineReader.Fits 10 httpGatewayResponseBodyLimit [] pieces → ∀ pieces',
    pieces'.flatten = pieces.flatten → LineReader.Fits 10 httpGatewayResponseBodyLimit [] pieces' →
      respondStreamed codec w pieces' = respondStreamed codec w pieces
  /-- The frames of a response come to what the buffered response comes to. -/
  same : LineReader.Fits 10 httpGatewayResponseBodyLimit [] pieces → w.Listening →
    ∀ status headers bodies body parts,
      IsStream codec pieces.flatten (responseFrames status headers bodies) →
        BufferedBody codec bodies body parts →
          SameResponse (respondStreamed codec w pieces)
            (respondBuffered codec w (bufferedResponse status headers body parts))
  /-- If that is decoded, any requester that is sent its chunks gets the same events. -/
  passed : LineReader.Fits 10 httpGatewayResponseBodyLimit [] pieces →
    ∀ status headers bodies response,
      IsStream codec pieces.flatten (responseFrames status headers bodies) →
        decodeGatewayWireResponse codec (bufferedResponse status headers none (some bodies)) =
            .ok response →
          respondStreamed codec w pieces =
            respondBuffered codec w (bufferedResponse status headers none (some bodies))
  /-- Pieces that do not fit are refused. -/
  fits : (respondStreamed codec w pieces).result = .ok () →
    LineReader.Fits 10 httpGatewayResponseBodyLimit [] pieces

/-- A streamed response means what the buffered one means, however cut, if every piece fits. -/
theorem streamedAsBuffered (codec : GatewayCodec) (w : GatewayHttpResponseWriter)
    (pieces : List Bytes) : StreamedAsBuffered codec w pieces where
  ordered := isStream_of_result
  cuts hfits pieces' hflatten hfits' := by
    rw [respondStreamed_of_fits hfits', respondStreamed_of_fits hfits, hflatten]
  same hfits hw status headers bodies body parts hstream hbody := by
    rw [respondStreamed_of_isStream hfits hstream]
    exact sameResponse hw status headers hbody
  passed hfits status wire bodies response hstream hdecode := by
    obtain ⟨headers, chunks, hheaders, hchunks, hstatus⟩ := exists_of_decode hdecode
    rw [respondStreamed_of_isStream hfits hstream]
    exact readFrames_eq_respondBuffered hheaders hchunks hstatus
  fits := fits_of_result

/-! ### A frame beyond the limit -/

namespace LongFrame

def responseLine : Bytes := "\x7b\"type\":\"response\",\"status\":200\x7d".toUTF8.data.toList

def bodyEndLine : Bytes := "\x7b\"type\":\"body_end\"\x7d".toUTF8.data.toList

/-- The base64 text of `n` groups of three zeros. -/
def zerosBase64 (n : ℕ) : Text := List.replicate (4 * n) 'A'

/-- The line of a chunk of zeros. -/
def bodyChunkLine (n : ℕ) : Bytes :=
  "\x7b\"type\":\"body_chunk\",\"body_base64\":\"".toUTF8.data.toList ++
    (List.replicate (4 * n) 65 ++ "\"\x7d".toUTF8.data.toList)

/-- What is read of these lines. -/
def zerosCodec (n : ℕ) : GatewayCodec where
  frame line :=
    if line = responseLine then .ok (.response 200 [])
    else if line = bodyEndLine then .ok .bodyEnd
    else if line = bodyChunkLine n then .ok (.bodyChunk (zerosBase64 n))
    else .error "expected value at line 1 column 1"
  base64 text :=
    if text = zerosBase64 n then .ok (List.replicate (3 * n) 0) else .error "Invalid padding"

/-- A response of zeros. -/
def zerosStream (n : ℕ) : Bytes :=
  ([responseLine, bodyChunkLine n, bodyEndLine].map (· ++ [10])).flatten

variable (n : ℕ)

theorem length_bodyChunkLine : (bodyChunkLine n).length = 38 + 4 * n := by
  have hstart : "\x7b\"type\":\"body_chunk\",\"body_base64\":\"".toUTF8.data.toList.length = 36 :=
      rfl
  have hend : "\"\x7d".toUTF8.data.toList.length = 2 := rfl
  unfold bodyChunkLine
  rw [length_append, length_append, length_replicate, hstart, hend]
  omega

theorem bodyChunkLine_ne {n : ℕ} {line : Bytes} (h : line.length < 38) : bodyChunkLine n ≠ line :=
    by
  rintro rfl
  rw [length_bodyChunkLine] at h
  omega

theorem zerosCodec_frame (line : Bytes) :
    (zerosCodec n).frame line =
      if line = responseLine then .ok (.response 200 [])
      else if line = bodyEndLine then .ok .bodyEnd
      else if line = bodyChunkLine n then .ok (.bodyChunk (zerosBase64 n))
      else .error "expected value at line 1 column 1" := rfl

theorem isStream_zerosStream :
    IsStream (zerosCodec n) (zerosStream n) (responseFrames 200 [] [zerosBase64 n]) := by
  have hresponse : (zerosCodec n).frame responseLine = .ok (.response 200 []) := by
    rw [zerosCodec_frame, if_pos rfl]
  have hend : (zerosCodec n).frame bodyEndLine = .ok .bodyEnd := by
    rw [zerosCodec_frame, if_neg (by decide), if_pos rfl]
  have hchunk : (zerosCodec n).frame (bodyChunkLine n) = .ok (.bodyChunk (zerosBase64 n)) := by
    rw [zerosCodec_frame, if_neg (bodyChunkLine_ne (by decide)),
      if_neg (bodyChunkLine_ne (by decide)), if_pos rfl]
  refine isStream_of_lines (.cons hresponse (.cons hchunk (.cons hend .nil))) fun line hmem => ?_
  rcases mem_cons.1 hmem with rfl | hmem
  · decide
  rcases mem_cons.1 hmem with rfl | hmem
  · have hstart : 10 ∉ "\x7b\"type\":\"body_chunk\",\"body_base64\":\"".toUTF8.data.toList :=
    by decide
    have hquote : 10 ∉ "\"\x7d".toUTF8.data.toList := by decide
    refine ⟨?_, ?_, ?_⟩
    · unfold bodyChunkLine
      rw [mem_append, mem_append, mem_replicate, not_or, not_or]
      exact ⟨hstart, fun h => absurd h.2 (by decide), hquote⟩
    · exact bodyChunkLine_ne (by decide)
    · unfold bodyChunkLine
      rw [← append_assoc, List.getLast?_append_of_ne_nil _ (by decide)]
      decide
  · obtain rfl := mem_singleton.1 hmem
    decide

theorem length_zerosStream : 4 * n < (zerosStream n).length := by
  unfold zerosStream
  rw [map_cons, map_cons, flatten_cons, flatten_cons, length_append,
    length_append, length_append, length_append, length_bodyChunkLine]
  omega

/-- A requester that takes every event. -/
def listener : GatewayHttpResponseWriter := ⟨fun _ _ => .ok ()⟩

/-- A frame beyond the limit does not get through a stream that comes in one piece. -/
theorem not_sameResponse {n : ℕ} (hn : httpGatewayResponseBodyLimit ≤ 4 * n) :
    ¬SameResponse (respondStreamed (zerosCodec n) listener [zerosStream n])
      (respondBuffered (zerosCodec n) listener
        (bufferedResponse 200 [] none (some [zerosBase64 n]))) := by
  intro hsame
  have hbody : decodeGatewayBody (zerosCodec n) (zerosBase64 n) = .ok (List.replicate (3 * n) 0) :=
      by
    have hbase64 : (zerosCodec n).base64 (zerosBase64 n) = .ok (List.replicate (3 * n) 0) :=
      if_pos rfl
    unfold decodeGatewayBody
    rw [hbase64]
    rfl
  have hchunks : [zerosBase64 n].mapM (decodeGatewayBody (zerosCodec n)) =
      .ok [List.replicate (3 * n) 0] := Except.mapM_eq_ok_iff.2 (.cons hbody .nil)
  have hstatus : 100 ≤ 200 ∧ 200 ≤ 599 := by decide
  have hheaders : decodeHeaders [] = .ok [] := rfl
  have hresult := hsame.result
  rw [← readFrames_eq_respondBuffered hheaders hchunks hstatus,
    readFrames_responseFrames hheaders hchunks, pass_chunks (fun _ _ => rfl) hstatus] at hresult
  have hfits := (fits_of_result hresult).1
  rw [nil_append] at hfits
  exact absurd (hfits.trans hn) (Nat.not_le.2 (length_zerosStream n))

/-- A chunk of twelve megabytes. -/
theorem not_streamedAsBuffered :
    IsStream (zerosCodec (4 * 1024 * 1024)) (zerosStream (4 * 1024 * 1024))
        (responseFrames 200 [] [zerosBase64 (4 * 1024 * 1024)]) ∧
      ¬SameResponse
        (respondStreamed (zerosCodec (4 * 1024 * 1024)) listener [zerosStream (4 * 1024 * 1024)])
        (respondBuffered (zerosCodec (4 * 1024 * 1024)) listener
          (bufferedResponse 200 [] none (some [zerosBase64 (4 * 1024 * 1024)]))) :=
  ⟨isStream_zerosStream _, not_sameResponse (by unfold httpGatewayResponseBodyLimit; omega)⟩

end LongFrame

end WasmHost

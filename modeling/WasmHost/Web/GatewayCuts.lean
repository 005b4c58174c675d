import WasmHost.Web.GatewayStream

/-!
# Streams of the gateway, however they are cut

What one frame of a stream can do (`FrameStep`), and from it what the writer sees of a whole stream.

* `GatewayStreamHolds`: the cut does not matter, the response is finished once and at the end, and
  the writer gets no more bytes than the limit.
* `gatewayStreamHolds_iff`: this holds exactly when every chunk that is read is within the limit of
  a frame together with what is left of the last line.
-/

namespace WasmHost

open List

open Tool (JsText JsValue js)

namespace GatewayStream

variable {ρ : Type} (rt : JsRuntime ρ) (w : ResponseWriter ρ) (bodyLimit : ℕ) {lines : List Bytes}

/-! ### One frame -/

/-- How far a stream has been read. -/
inductive Phase
  | before
  | body
  | ended
  deriving DecidableEq

/-- Where the stream is. -/
def phase (s : StreamState) : Phase :=
  if s.completed = true then .ended
  else if s.responseHead.isSome = true then .body
  else .before

/-- An error frame with the very error of the limit. -/
def LimitFrame (frame : JsValue) : Prop :=
  (frame.field "type").IsText "error" ∧ decodeGatewayWireError rt frame = .ok frameTooLarge

/-- What a frame does: it is refused, the writer is called, or the stream is completed. -/
inductive FrameStep (s : StreamState) (frame : JsValue) :
    Except (StreamFailure ρ) StreamState → Prop
  | refused {thrown : StreamThrown ρ}
      (h : thrown = .bridge frameTooLarge ↔ phase s ≠ .ended ∧ LimitFrame rt frame) :
      FrameStep s frame (.error (s.throws thrown))
  | response {head : ResponseHead} (hphase : phase s = .before)
      (htype : (frame.field "type").IsText "response") (hhead : frameHead rt frame = .ok head) :
      FrameStep s frame (StreamState.startResponse { s with responseHead := some head } w head)
  | bodyChunk {chunk : Bytes} (hphase : phase s = .body)
      (htype : (frame.field "type").IsText "body_chunk")
      (hlimit : s.responseBodyBytes + chunk.length ≤ bodyLimit) :
      FrameStep s frame (StreamState.writeResponseChunk
        { s with responseBodyBytes := s.responseBodyBytes + chunk.length } w chunk)
  | bodyEnd (hphase : phase s = .body) (htype : (frame.field "type").IsText "body_end") :
      FrameStep s frame (.ok { s with completed := true })

variable {rt} {w} {bodyLimit} {s : StreamState} {frame : JsValue}

theorem isText_unique {value : JsValue} {a b : String} (ha : value.IsText a) (hb : value.IsText b) :
    js a = js b := by
  rw [JsValue.IsText] at ha hb
  rw [ha] at hb
  exact JsValue.string.inj hb

/-- A frame of another type is refused with another error. -/
theorem FrameStep.of_other {thrown : StreamThrown ρ} (hthrown : thrown ≠ .bridge frameTooLarge)
    (hframe : phase s = .ended ∨ ¬LimitFrame rt frame) :
    FrameStep rt w bodyLimit s frame (.error (s.throws thrown)) := by
  refine .refused (iff_of_false hthrown ?_)
  rintro ⟨hphase, hlimit⟩
  exact hframe.elim hphase fun h => h hlimit

theorem invalidResponse_ne (message : JsText) :
    (invalidResponse message : StreamThrown ρ) ≠ .bridge frameTooLarge := by
  intro h
  have hkind := congrArg GatewayError.kind (StreamThrown.bridge.inj h)
  cases hkind

/-- What is thrown by the checks of a frame is not the error of the limit. -/
def Distinct {α : Type} (x : Except (StreamThrown ρ) α) : Prop :=
  x.Meets (fun _ => True) (· ≠ .bridge frameTooLarge)

theorem distinct_jsString (value : JsValue) : Distinct (jsString rt value) := by
  unfold jsString
  cases rt.string value with
  | error => exact nofun
  | ok => trivial

theorem Distinct.bind {α β : Type} {x : Except (StreamThrown ρ) α}
    {f : α → Except (StreamThrown ρ) β} (hx : Distinct x) (hf : ∀ a, Distinct (f a)) :
    Distinct (x.bind f) :=
  Except.Meets.bind hx fun a _ => hf a

theorem distinct_status (status : JsValue) :
    Distinct (validateGatewayResponseStatus rt status) := by
  have hrefused : Distinct ((jsString rt status).bind fun text =>
      (.error (invalidResponse
        (js "HTTP response status must be between 100 and 599, got " ++ text)) :
          Except (StreamThrown ρ) ℕ)) :=
    (distinct_jsString status).bind fun text => invalidResponse_ne _
  unfold validateGatewayResponseStatus
  split
  · split_ifs
    · trivial
    · exact hrefused
  · exact hrefused

theorem distinct_header (header : JsValue) : Distinct (gatewayWireHeader rt header) := by
  refine (distinct_jsString _).bind fun name => (distinct_jsString _).bind fun value => ?_
  split_ifs
  · exact invalidResponse_ne _
  · trivial

theorem distinct_mapM {α β : Type} {f : α → Except (StreamThrown ρ) β} (hf : ∀ a, Distinct (f a))
    (as : List α) : Distinct (as.mapM f) := by
  induction as with
  | nil => trivial
  | cons a as ih =>
    rw [mapM_cons]
    exact (hf a).bind fun _ => ih.bind fun _ => trivial

theorem distinct_head (frame : JsValue) : Distinct (frameHead rt frame) := by
  refine (distinct_status _).bind fun status => Distinct.bind ?_ fun _ => trivial
  unfold gatewayWireHeaders
  split
  · exact distinct_mapM distinct_header _
  · exact invalidResponse_ne _

theorem distinct_base64 (value : JsValue) :
    Distinct (gatewayBase64 value : Except (StreamThrown ρ) Bytes) := by
  unfold gatewayBase64
  split
  · split
    · trivial
    · exact invalidResponse_ne _
  · exact invalidResponse_ne _

/-- The error of the other limit has another text. -/
theorem distinct_bodyLimit (total : ℕ) (chunk : Bytes) (limit : ℕ) :
    Distinct (enforceResponseBodyLimit total chunk limit : Except (StreamThrown ρ) ℕ) := by
  unfold enforceResponseBodyLimit
  split_ifs
  · intro h
    have hmessage := congrArg GatewayError.message (StreamThrown.bridge.inj h)
    have htake := congrArg (List.take 6) hmessage
    rw [append_assoc, take_append_of_le_length (by decide)] at htake
    exact absurd htake (by decide)
  · trivial

/-- A check of a frame either refuses it or gives what the rest goes on with. -/
theorem FrameStep.of_check {α : Type} {x : Except (StreamThrown ρ) α}
    {f : α → Except (StreamFailure ρ) StreamState} (hx : Distinct x)
    (hframe : ¬LimitFrame rt frame)
    (hf : ∀ a, x = .ok a → FrameStep rt w bodyLimit s frame (f a)) :
    FrameStep rt w bodyLimit s frame ((x.mapError s.throws).bind f) := by
  cases x with
  | error => exact .of_other hx (.inr hframe)
  | ok a => exact hf a rfl

theorem phase_eq_before (hcompleted : ¬s.completed = true) (hhead : ¬s.responseHead.isSome = true) :
    phase s = .before := by
  rw [phase, if_neg hcompleted, if_neg hhead]

theorem phase_eq_body (hcompleted : ¬s.completed = true) (hhead : ¬s.responseHead.isNone = true) :
    phase s = .body := by
  rw [phase, if_neg hcompleted, if_pos]
  simpa [Option.isSome_iff_ne_none] using hhead

theorem phase_ne_ended (hcompleted : ¬s.completed = true) : phase s ≠ .ended := by
  unfold phase
  split_ifs <;> exact nofun

variable (rt) (w) (bodyLimit) in
/-- What a frame comes to. -/
theorem frameStep (s : StreamState) (frame : JsValue) :
    FrameStep rt w bodyLimit s frame (applyFrame rt w bodyLimit s frame) := by
  have hnot : ∀ type, (frame.field "type").IsText type → js type ≠ js "error" →
      ¬LimitFrame rt frame := fun type htype hne hlimit => hne (isText_unique htype hlimit.1)
  unfold applyFrame
  split_ifs with hcompleted hresponse hchunk hend herror
  · exact .of_other (invalidResponse_ne _) (.inl (if_pos hcompleted))
  · -- a response frame
    have hlimit := hnot "response" hresponse (by decide)
    unfold applyResponse
    split_ifs with hhead
    · exact .of_other (invalidResponse_ne _) (.inr hlimit)
    · exact .of_check (distinct_head frame) hlimit fun head hok =>
        .response (phase_eq_before hcompleted hhead) hresponse hok
  · -- a part of the body
    have hlimit := hnot "body_chunk" hchunk (by decide)
    unfold applyBodyChunk
    split_ifs with hhead
    · exact .of_other (invalidResponse_ne _) (.inr hlimit)
    · refine .of_check (distinct_base64 _) hlimit fun chunk _ => ?_
      refine .of_check (distinct_bodyLimit _ _ _) hlimit fun total htotal => ?_
      unfold enforceResponseBodyLimit at htotal
      split_ifs at htotal with htoo
      obtain rfl := Except.ok.inj htotal
      exact .bodyChunk (phase_eq_body hcompleted hhead) hchunk (Nat.not_lt.1 htoo)
  · -- the end of the body
    unfold applyBodyEnd
    split_ifs with hhead
    · exact .of_other (invalidResponse_ne _) (.inr (hnot "body_end" hend (by decide)))
    · exact .bodyEnd (phase_eq_body hcompleted hhead) hend
  · -- an error of the gateway
    have hphase := phase_ne_ended hcompleted
    cases hdecode : decodeGatewayWireError rt frame with
    | ok =>
      refine .refused ⟨fun h => ⟨hphase, herror, ?_⟩, fun h => ?_⟩
      · rw [hdecode, StreamThrown.bridge.inj h]
      · have hsame := h.2.2
        rw [hdecode] at hsame
        rw [Except.ok.inj hsame]
    | error =>
      have hdistinct : Distinct (decodeGatewayWireError rt frame) := by
        refine (distinct_jsString _).bind fun kind => ?_
        split
        · exact invalidResponse_ne _
        · exact (distinct_jsString _).bind fun _ => trivial
      rw [hdecode] at hdistinct
      refine .of_other hdistinct (.inr fun hlimit => ?_)
      rw [LimitFrame, hdecode] at hlimit
      cases hlimit.2
  · refine .of_check (distinct_jsString _) (fun hlimit => herror hlimit.1) fun type _ => ?_
    exact .of_other (invalidResponse_ne _) (.inr fun hlimit => herror hlimit.1)

/-! ### One line -/

/-- A line that is skipped. -/
def Blank (line : Bytes) : Prop := isAsciiWhitespace (withoutReturn line) = true

/-- Blank lines can be recognised. -/
instance : DecidablePred Blank := fun line =>
  inferInstanceAs (Decidable (isAsciiWhitespace (withoutReturn line) = true))

theorem readLine_of_blank {line : Bytes} (h : Blank line) :
    readLine rt w bodyLimit s line = .ok s := if_pos h

theorem readLine_of_frame {line : Bytes} (h : ¬Blank line)
    (hparse : parseGatewayStreamFrame rt (withoutReturn line) = .ok frame) :
    readLine rt w bodyLimit s line = applyFrame rt w bodyLimit s frame := by
  have hline : ¬isAsciiWhitespace (withoutReturn line) = true := h
  unfold readLine
  rw [if_neg hline, hparse]
  rfl

theorem readLine_of_error {line : Bytes} {thrown : StreamThrown ρ} (h : ¬Blank line)
    (hparse : parseGatewayStreamFrame rt (withoutReturn line) = .error thrown) :
    readLine rt w bodyLimit s line = .error (s.throws thrown) := by
  have hline : ¬isAsciiWhitespace (withoutReturn line) = true := h
  unfold readLine
  rw [if_neg hline, hparse]
  rfl

theorem distinct_parse (line : Bytes) : Distinct (parseGatewayStreamFrame rt line) := by
  unfold parseGatewayStreamFrame
  split
  · exact invalidResponse_ne _
  · trivial
  · exact invalidResponse_ne _

/-- What holds after a skipped line, a line that is no frame and every step of a frame, holds after
a line. -/
theorem readLine_meets {P : StreamState → Prop} {E : StreamFailure ρ → Prop} (line : Bytes)
    (hblank : Blank line → P s) (hthrows : ∀ thrown, E (s.throws thrown))
    (hframe : ∀ frame x, ¬Blank line → parseGatewayStreamFrame rt (withoutReturn line) = .ok frame →
      FrameStep rt w bodyLimit s frame x → x.Meets P E) :
    (readLine rt w bodyLimit s line).Meets P E := by
  by_cases hline : Blank line
  · rw [readLine_of_blank hline]
    exact hblank hline
  · cases hparse : parseGatewayStreamFrame rt (withoutReturn line) with
    | error thrown =>
      rw [readLine_of_error hline hparse]
      exact hthrows thrown
    | ok frame =>
      rw [readLine_of_frame hline hparse]
      exact hframe frame _ hline hparse (frameStep rt w bodyLimit s frame)

/-! ### The calls -/

variable {c : WriterCall} (calls : List WriterCall) {r : Bytes × StreamState} {chunk : Bytes}
    {chunks : List Bytes}

theorem call_meets {P : StreamState → Prop} {E : StreamFailure ρ → Prop}
    (hok : P { s with calls := s.calls ++ [c] }) (herror : ∀ thrown, E ⟨thrown, s.calls ++ [c]⟩) :
    (s.call w c).Meets P E := by
  unfold StreamState.call
  cases w.answer s.calls c with
  | ok => exact hok
  | error => exact herror _

/-- The calls only grow. -/
theorem readLine_calls (s : StreamState) (line : Bytes) (hs : calls <+: s.calls) :
    (readLine rt w bodyLimit s line).Meets (fun s' => calls <+: s'.calls)
      fun failure => calls <+: failure.calls := by
  have hgrown : ∀ c, calls <+: s.calls ++ [c] := fun c => hs.trans (prefix_append _ _)
  refine readLine_meets line (fun _ => hs) (fun _ => hs) fun frame x _ _ hstep => ?_
  cases hstep with
  | refused => exact hs
  | response =>
    unfold StreamState.startResponse
    split_ifs
    · exact call_meets (hgrown _) fun _ => hgrown _
    · exact hs
  | bodyChunk =>
    unfold StreamState.writeResponseChunk
    split_ifs
    · exact call_meets (hgrown _) fun _ => hgrown _
    · exact hs
  | bodyEnd => exact hs

/-- The call ends the body. -/
def isFinish : WriterCall → Bool
  | .start _ => false
  | .bodyChunk _ => false
  | .finish _ => true

/-- The bytes of a call. -/
def callBytes : WriterCall → ℕ
  | .start _ => 0
  | .bodyChunk chunk => chunk.length
  | .finish _ => 0

/-- The number of bytes that the writer was given. -/
def passed (calls : List WriterCall) : ℕ := (calls.map callBytes).sum

theorem passed_concat (c : WriterCall) : passed (calls ++ [c]) = passed calls + callBytes c := by
  rw [passed, map_append, sum_append]
  rfl

theorem countP_concat (c : WriterCall) :
    (calls ++ [c]).countP isFinish = calls.countP isFinish + (isFinish c).toNat := by
  rw [countP_append, countP_singleton]
  cases isFinish c <;> rfl

variable (bodyLimit) in
/-- Calls before the end. -/
structure Unfinished (calls : List WriterCall) : Prop where
  finish : calls.countP isFinish = 0
  limit : passed calls ≤ bodyLimit

variable (bodyLimit) in
/-- What holds of the state between two pieces. -/
structure Sound (s : StreamState) : Prop where
  head : s.completed = true → s.responseHead.isSome = true
  calls : Unfinished bodyLimit s.calls
  counted : passed s.calls = s.responseBodyBytes

theorem sound_new : Sound bodyLimit .new where
  head := nofun
  calls := ⟨rfl, Nat.zero_le _⟩
  counted := rfl

theorem Unfinished.concat {calls : List WriterCall} (h : Unfinished bodyLimit calls)
    (hc : isFinish c = false) (hlimit : passed calls + callBytes c ≤ bodyLimit) :
    Unfinished bodyLimit (calls ++ [c]) where
  finish := by rw [countP_concat, h.finish, hc]; rfl
  limit := by rwa [passed_concat]

/-- A line keeps the invariant. -/
theorem Sound.readLine (hs : Sound bodyLimit s) (line : Bytes) :
    (readLine rt w bodyLimit s line).Meets (Sound bodyLimit)
      fun failure => Unfinished bodyLimit failure.calls := by
  refine readLine_meets line (fun _ => hs) (fun _ => hs.calls) fun frame x _ _ hstep => ?_
  cases hstep with
  | refused => exact hs.calls
  | @response head =>
    have hhead : s.completed = true → (some head).isSome = true := fun _ => rfl
    have hcalls : Unfinished bodyLimit (s.calls ++ [.start head]) :=
      hs.calls.concat rfl hs.calls.limit
    unfold StreamState.startResponse
    split_ifs
    · refine call_meets ⟨hhead, hcalls, ?_⟩ fun _ => hcalls
      rw [passed_concat]
      exact hs.counted
    · exact ⟨hhead, hs.calls, hs.counted⟩
  | @bodyChunk chunk _ _ hlimit =>
    have hcalls : Unfinished bodyLimit (s.calls ++ [.bodyChunk chunk]) :=
      hs.calls.concat rfl (by rw [hs.counted]; exact hlimit)
    unfold StreamState.writeResponseChunk
    split_ifs
    · refine call_meets ⟨hs.head, hcalls, ?_⟩ fun _ => hcalls
      rw [passed_concat, hs.counted]
      rfl
    · exact hs.calls
  | bodyEnd hphase =>
    refine ⟨fun _ => ?_, hs.calls, hs.counted⟩
    unfold phase at hphase
    split_ifs at hphase with _ hhead
    exact hhead

/-- A line with the frame that ends the body. -/
def BodyEndLine (rt : JsRuntime ρ) (line : Bytes) : Prop :=
  ¬Blank line ∧ ∃ frame, parseGatewayStreamFrame rt (withoutReturn line) = .ok frame ∧
    (frame.field "type").IsText "body_end"

/-- The last frame of some lines ends the body. -/
def EndsBody (rt : JsRuntime ρ) (lines : List Bytes) : Prop :=
  ∃ before line after, lines = before ++ line :: after ∧ BodyEndLine rt line ∧
    ∀ rest ∈ after, Blank rest

theorem endsBody_of_completed (h : lines.foldlM (readLine rt w bodyLimit) .new = .ok s)
    (hcompleted : s.completed = true) : EndsBody rt lines := by
  induction lines using List.reverseRecOn generalizing s with
  | nil =>
    obtain rfl := Except.ok.inj h
    cases hcompleted
  | append_singleton lines line ih =>
    rw [foldlM_append] at h
    obtain ⟨s', hs', h⟩ := Except.bind_eq_ok_iff.1 h
    have hline : readLine rt w bodyLimit s' line = .ok s := by
      obtain ⟨t, ht, hlast⟩ := Except.bind_eq_ok_iff.1 h
      rw [ht, ← hlast]
      rfl
    have hphase : ∀ p, phase s' = p → p ≠ .ended → ¬s'.completed = true := by
      rintro p rfl hp hcompleted'
      exact hp (if_pos hcompleted')
    have hmeets : (readLine rt w bodyLimit s' line).Meets
        (fun t => t.completed = true → EndsBody rt (lines ++ [line])) fun _ => True := by
      refine readLine_meets line (fun hblank hbefore => ?_) (fun _ => trivial)
        fun frame x hblank hparse hstep => ?_
      · obtain ⟨before, last, after, rfl, hend, hafter⟩ := ih hs' hbefore
        refine ⟨before, last, after ++ [line], by simp, hend, fun rest hrest => ?_⟩
        rcases mem_append.1 hrest with hrest | hrest
        · exact hafter rest hrest
        · rwa [mem_singleton.1 hrest]
      · cases hstep with
        | refused => trivial
        | response hbefore =>
          have hnot := hphase _ hbefore nofun
          unfold StreamState.startResponse
          split_ifs
          · exact call_meets (fun h => absurd h hnot) fun _ => trivial
          · exact fun h => absurd h hnot
        | bodyChunk hbody =>
          have hnot := hphase _ hbody nofun
          unfold StreamState.writeResponseChunk
          split_ifs
          · exact call_meets (fun h => absurd h hnot) fun _ => trivial
          · trivial
        | bodyEnd _ htype =>
          exact fun _ => ⟨lines, line, [], rfl, ⟨hblank, frame, hparse, htype⟩, nofun⟩
    rw [hline] at hmeets
    exact hmeets hcompleted

/-! ### The end of the stream -/

variable (w) in
/-- The end of the stream throws another error, or calls the writer. -/
theorem endGatewayStream_cases (r : Bytes × StreamState)
    (hhead : r.2.completed = true → r.2.responseHead.isSome = true) :
    (∃ thrown : StreamThrown ρ, thrown ≠ .bridge frameTooLarge ∧
      endGatewayStream w r = .error (r.2.throws thrown)) ∨
    isAsciiWhitespace r.1 = true ∧ r.2.completed = true ∧
      ∃ head, endGatewayStream w r = r.2.call w (.finish head) := by
  unfold endGatewayStream
  split_ifs with hblank hcompleted
  · exact .inl ⟨_, invalidResponse_ne _, rfl⟩
  · exact .inl ⟨_, invalidResponse_ne _, rfl⟩
  · rw [Bool.not_eq_false] at hblank hcompleted
    obtain ⟨head, hsome⟩ := Option.isSome_iff_exists.1 (hhead hcompleted)
    rw [hsome]
    unfold StreamState.finishResponse
    split_ifs
    · exact .inr ⟨hblank, hcompleted, head, rfl⟩
    · refine .inl ⟨_, fun h => ?_, rfl⟩
      have hkind := congrArg GatewayError.kind (StreamThrown.bridge.inj h)
      cases hkind

theorem blank_of_isAsciiWhitespace {line : Bytes} (h : isAsciiWhitespace line = true) :
    Blank line := by
  unfold isAsciiWhitespace at h
  unfold Blank withoutReturn
  split_ifs
  · rw [isAsciiWhitespace, all_eq_true]
    exact fun byte hbyte => all_eq_true.1 h byte (mem_of_mem_dropLast hbyte)
  · exact h

section

variable (rt) (w) (options : GatewayStreamOptions)

/-- What is read from some point on. -/
def readOn (r : Bytes × StreamState) (chunks : List Bytes) : StreamOutcome ρ :=
  .of <| (chunks.foldlM (readGatewayChunk rt w options) r).bind (endGatewayStream w)

/-- A frame that is taken without a call of the writer, and the phase after it. -/
def Quiet (p : Phase) (frame : JsValue) (next : Phase) : Prop :=
  (p = .before ∧ (frame.field "type").IsText "response" ∧ w.start = false ∧
    (∃ head, frameHead rt frame = .ok head) ∧ next = .body) ∨
  p = .body ∧ (frame.field "type").IsText "body_end" ∧ next = .ended

/-- What is read one by one makes no call of the writer up to a line beyond the limit, or to an
error frame with the very error of the limit. -/
def EndsInLimitError (limit : ℕ) : Phase → Bytes → Bytes → Prop
  | _, _, [] => False
  | p, line, x :: rest =>
    limit < line.length + 1 ∨
      if x = 10 then
        (Blank line ∧ EndsInLimitError limit p [] rest) ∨
          ¬Blank line ∧ ∃ frame, parseGatewayStreamFrame rt (withoutReturn line) = .ok frame ∧
            ((p ≠ .ended ∧ LimitFrame rt frame) ∨
              ∃ next, Quiet rt w p frame next ∧ EndsInLimitError limit next [] rest)
      else EndsInLimitError limit p (line ++ [x]) rest

end

variable {options : GatewayStreamOptions} {line : Bytes}

theorem readOn_cons_error {failure : StreamFailure ρ}
    (h : readGatewayChunk rt w options r chunk = .error failure) :
    readOn rt w options r (chunk :: chunks) = ⟨failure.calls, .error failure.thrown⟩ := by
  rw [readOn, foldlM_cons, h]
  rfl

theorem readOn_cons_ok {r' : Bytes × StreamState}
    (h : readGatewayChunk rt w options r chunk = .ok r') :
    readOn rt w options r (chunk :: chunks) = readOn rt w options r' chunks := by
  rw [readOn, foldlM_cons, h]
  rfl

variable (rt) (w) in
theorem sound_readOn (hs : Sound options.bodyLimit s) (line : Bytes) (chunks : List Bytes) :
    (chunks.foldlM (readGatewayChunk rt w options) (line, s)).Meets
      (fun r => Sound options.bodyLimit r.2)
      fun failure => Unfinished options.bodyLimit failure.calls :=
  Except.Meets.foldlM
    (fun r chunk hr => LineReader.readChunk_meets (fun _ line hs => hs.readLine line)
      (fun _ hs => hs.calls) r chunk hr) hs chunks

/-- The calls of a run start with those before it. -/
theorem calls_readOn (hs : Sound options.bodyLimit s) (line : Bytes) (chunks : List Bytes) :
    s.calls <+: (readOn rt w options (line, s) chunks).calls := by
  have hsound := sound_readOn rt w hs line chunks
  have hcalls : (chunks.foldlM (readGatewayChunk rt w options) (line, s)).Meets
      (fun r => s.calls <+: r.2.calls) fun failure => s.calls <+: failure.calls :=
    Except.Meets.foldlM
      (fun r chunk hr => LineReader.readChunk_meets (readLine_calls s.calls)
        (fun _ hs => hs) r chunk hr) (prefix_refl _) chunks
  unfold readOn
  cases hrun : chunks.foldlM (readGatewayChunk rt w options) (line, s) with
  | error =>
    rw [hrun] at hcalls
    exact hcalls
  | ok r =>
    rw [hrun] at hcalls hsound
    show s.calls <+: (StreamOutcome.of (endGatewayStream w r)).calls
    rcases endGatewayStream_cases w r hsound.head with
      ⟨thrown, -, hend⟩ | ⟨-, -, head, hend⟩
    · rw [hend]
      exact hcalls
    · have hgrown : s.calls <+: r.2.calls ++ [.finish head] := hcalls.trans (prefix_append _ _)
      rw [hend]
      unfold StreamState.call
      cases w.answer r.2.calls (.finish head) with
      | ok | error => exact hgrown

/-- The outcome of a chunk beyond the limit. -/
def limitOutcome (calls : List WriterCall) : StreamOutcome ρ :=
  ⟨calls, .error (.bridge frameTooLarge)⟩

theorem limitOutcome_iff {calls calls' : List WriterCall} {thrown : StreamThrown ρ} :
    (⟨calls', .error thrown⟩ : StreamOutcome ρ) = limitOutcome calls ↔
      calls' = calls ∧ thrown = .bridge frameTooLarge := by
  rw [limitOutcome, StreamOutcome.mk.injEq, Except.error.injEq]

theorem applyFrame_response (hphase : phase s = .before)
    (htype : (frame.field "type").IsText "response") {head : ResponseHead}
    (hhead : frameHead rt frame = .ok head) :
    applyFrame rt w bodyLimit s frame =
      StreamState.startResponse { s with responseHead := some head } w head := by
  unfold phase at hphase
  split_ifs at hphase with hcompleted hsome
  unfold applyFrame applyResponse
  rw [if_neg hcompleted, if_pos htype, if_neg hsome, hhead]
  rfl

theorem applyFrame_bodyEnd (hphase : phase s = .body)
    (htype : (frame.field "type").IsText "body_end") :
    applyFrame rt w bodyLimit s frame = .ok { s with completed := true } := by
  have hnot : ∀ other, js "body_end" ≠ js other → ¬(frame.field "type").IsText other :=
    fun other hne hother => hne (isText_unique htype hother)
  unfold phase at hphase
  split_ifs at hphase with hcompleted hsome
  unfold applyFrame applyBodyEnd
  rw [if_neg hcompleted, if_neg (hnot _ (by decide)), if_neg (hnot _ (by decide)), if_pos htype,
    if_neg]
  rw [Option.isNone_iff_eq_none]
  intro hnone
  rw [hnone] at hsome
  cases hsome

/-- A quiet frame is taken, and is no error frame. -/
theorem Quiet.applyFrame {next : Phase} (h : Quiet rt w (phase s) frame next) (bodyLimit : ℕ) :
    ¬LimitFrame rt frame ∧ ∃ s', applyFrame rt w bodyLimit s frame = .ok s' ∧ phase s' = next ∧
      s'.calls = s.calls := by
  rcases h with ⟨hphase, htype, hstart, ⟨head, hhead⟩, rfl⟩ | ⟨hphase, htype, rfl⟩
  · have hcompleted : ¬s.completed = true := by
      intro hcompleted
      rw [phase, if_pos hcompleted] at hphase
      cases hphase
    refine ⟨fun hlimit => absurd (isText_unique htype hlimit.1) (by decide),
      { s with responseHead := some head }, ?_, ?_, rfl⟩
    · rw [applyFrame_response hphase htype hhead, StreamState.startResponse,
        if_neg (by simp [hstart])]
    · rw [phase, if_neg hcompleted]
      rfl
  · refine ⟨fun hlimit => absurd (isText_unique htype hlimit.1) (by decide),
      { s with completed := true }, applyFrame_bodyEnd hphase htype, rfl, rfl⟩

/-- After one more call of the writer there is no way back to the calls before it. -/
theorem readOn_ne_of_call {s' : StreamState} (hs : Sound options.bodyLimit s')
    (hcalls : s'.calls = s.calls ++ [c]) (line : Bytes) (chunks : List Bytes) :
    readOn rt w options (line, s') chunks ≠ limitOutcome s.calls := by
  intro h
  have hcalled : s'.calls <+: (readOn rt w options (line, s') chunks).calls :=
    calls_readOn hs line chunks
  rw [h, hcalls] at hcalled
  have hlen := hcalled.length_le
  rw [length_append, length_singleton, limitOutcome] at hlen
  exact absurd hlen (Nat.not_succ_le_self _)

theorem readOn_cons_call {t : StreamState}
    (ht : t.calls = s.calls)
    (hread : readGatewayChunk rt w options r chunk = (t.call w c).bind fun s' => .ok ([], s'))
    (hsound : (t.call w c).Meets (Sound options.bodyLimit) fun failure =>
      Unfinished options.bodyLimit failure.calls) (chunks : List Bytes) :
    readOn rt w options r (chunk :: chunks) ≠ limitOutcome s.calls := by
  unfold StreamState.call at hread hsound
  cases hanswer : w.answer t.calls c with
  | ok =>
    rw [hanswer] at hread hsound
    rw [readOn_cons_ok hread]
    exact readOn_ne_of_call hsound (by rw [ht]) _ _
  | error =>
    rw [hanswer] at hread
    rw [readOn_cons_error hread]
    intro h
    have hthrown := (limitOutcome_iff.1 h).2
    cases hthrown

/-- A frame that is not quiet: the error of the limit comes only from an error frame. -/
theorem readOn_frame_iff
    (hquiet : ¬∃ next, Quiet rt w (phase s) frame next)
    (hread : readGatewayChunk rt w options r chunk =
      (applyFrame rt w options.bodyLimit s frame).bind fun s' => .ok ([], s'))
    (hsound : (applyFrame rt w options.bodyLimit s frame).Meets (Sound options.bodyLimit)
      fun failure => Unfinished options.bodyLimit failure.calls) :
    readOn rt w options r (chunk :: chunks) = limitOutcome s.calls ↔
      phase s ≠ .ended ∧ LimitFrame rt frame := by
  have hstep := frameStep rt w options.bodyLimit s frame
  generalize applyFrame rt w options.bodyLimit s frame = y at hstep hread hsound
  cases hstep with
  | refused h =>
    rw [readOn_cons_error hread, limitOutcome_iff]
    exact (and_iff_right rfl).trans h
  | @response head hphase htype hhead =>
    refine iff_of_false ?_ fun h => absurd (isText_unique htype h.2.1) (by decide)
    have hstart : w.start = true := by
      by_contra hstart
      exact hquiet ⟨.body, .inl ⟨hphase, htype, by simpa using hstart, ⟨head, hhead⟩, rfl⟩⟩
    rw [StreamState.startResponse, if_pos hstart] at hread hsound
    exact readOn_cons_call rfl hread hsound chunks
  | @bodyChunk chunk _ htype =>
    refine iff_of_false ?_ fun h => absurd (isText_unique htype h.2.1) (by decide)
    unfold StreamState.writeResponseChunk at hread hsound
    split_ifs at hread hsound
    · exact readOn_cons_call rfl hread hsound chunks
    · rw [readOn_cons_error hread]
      intro h
      have hkind := congrArg GatewayError.kind (StreamThrown.bridge.inj (limitOutcome_iff.1 h).2)
      cases hkind
  | bodyEnd hphase htype => exact absurd ⟨.ended, .inr ⟨hphase, htype, rfl⟩⟩ hquiet

/-- Where reading one by one ends in the error of the limit, with no more calls. -/
theorem readOn_bytes_iff (bytes : Bytes) (hline : 10 ∉ line) (hs : Sound options.bodyLimit s) :
    readOn rt w options (line, s) (bytes.map ([·])) = limitOutcome s.calls ↔
      EndsInLimitError rt w options.frameLimit (phase s) line bytes := by
  induction bytes generalizing line s with
  | nil =>
    refine iff_of_false ?_ id
    rcases endGatewayStream_cases w (line, s) hs.head with
      ⟨thrown, hne, hend⟩ | ⟨-, -, head, hend⟩
    · show StreamOutcome.of (endGatewayStream w (line, s)) ≠ _
      rw [hend]
      exact fun h => hne (limitOutcome_iff.1 h).2
    · show StreamOutcome.of (endGatewayStream w (line, s)) ≠ _
      rw [hend]
      unfold StreamState.call
      cases w.answer s.calls (.finish head) with
      | ok =>
        intro h
        have hresult := congrArg StreamOutcome.result h
        cases hresult
      | error =>
        intro h
        have hthrown := (limitOutcome_iff.1 h).2
        cases hthrown
  | cons x bytes ih =>
    have hone : readGatewayChunk rt w options (line, s) [x] = _ :=
      LineReader.readChunk_singleton hline x
    rw [map_cons, EndsInLimitError]
    by_cases hlimit : options.frameLimit < line.length + 1
    · rw [if_pos hlimit] at hone
      rw [readOn_cons_error hone]
      exact iff_of_true rfl (.inl hlimit)
    rw [if_neg hlimit] at hone
    rw [or_iff_right hlimit]
    by_cases hx : x = 10
    · rw [if_pos hx] at hone
      rw [if_pos hx]
      by_cases hblank : Blank line
      · -- a line that is skipped
        rw [readLine_of_blank hblank] at hone
        rw [readOn_cons_ok hone, ih not_mem_nil hs, and_iff_right hblank,
          or_iff_left fun h => h.1 hblank]
      rw [and_iff_right hblank, or_iff_right fun h => hblank h.1]
      cases hparse : parseGatewayStreamFrame rt (withoutReturn line) with
      | error =>
        have hdistinct : Distinct (parseGatewayStreamFrame rt _) :=
          distinct_parse (withoutReturn line)
        rw [hparse] at hdistinct
        rw [readLine_of_error hblank hparse] at hone
        rw [readOn_cons_error hone]
        refine iff_of_false (fun h => hdistinct (limitOutcome_iff.1 h).2) ?_
        rintro ⟨frame, h, -⟩
        cases h
      | ok frame =>
        rw [readLine_of_frame hblank hparse] at hone
        simp only [Except.ok.injEq, exists_eq_left']
        by_cases hquiet : ∃ next, Quiet rt w (phase s) frame next
        · -- the frame makes no call, and reading goes on
          obtain ⟨next, hquiet⟩ := hquiet
          obtain ⟨hnot, s', happly, rfl, hcalls⟩ := hquiet.applyFrame options.bodyLimit
          have hs' : Sound options.bodyLimit s' := by
            have hmeets : (readLine rt w options.bodyLimit s line).Meets _ _ := hs.readLine line
            rw [readLine_of_frame hblank hparse, happly] at hmeets
            exact hmeets
          rw [happly] at hone
          rw [readOn_cons_ok hone, ← hcalls, ih not_mem_nil hs',
            or_iff_right fun h => hnot h.2]
          refine ⟨fun h => ⟨_, hquiet, h⟩, ?_⟩
          rintro ⟨next', hquiet', h⟩
          obtain ⟨-, t, hsame, rfl, -⟩ := hquiet'.applyFrame options.bodyLimit
          rwa [Except.ok.inj (happly.symm.trans hsame)]
        · have hnone : ¬∃ next, Quiet rt w (phase s) frame next ∧
              EndsInLimitError rt w options.frameLimit next [] bytes := fun h =>
            hquiet (h.imp fun _ h => h.1)
          rw [or_iff_left hnone]
          have hmeets : (readLine rt w options.bodyLimit s line).Meets (Sound options.bodyLimit)
              fun failure => Unfinished options.bodyLimit failure.calls := hs.readLine line
          rw [readLine_of_frame hblank hparse] at hmeets
          exact readOn_frame_iff hquiet hone hmeets
    · rw [if_neg hx] at hone
      rw [if_neg hx, readOn_cons_ok hone]
      refine ih ?_ hs
      rw [mem_append, mem_singleton, not_or]
      exact ⟨hline, Ne.symm hx⟩

/-! ### The whole stream -/

theorem endsBody_append {rest : Bytes} (h : EndsBody rt lines) (hrest : Blank rest) :
    EndsBody rt (lines ++ [rest]) := by
  obtain ⟨before, line, after, rfl, hend, hafter⟩ := h
  refine ⟨before, line, after ++ [rest], by simp, hend, fun other hother => ?_⟩
  rcases mem_append.1 hother with hother | hother
  · exact hafter other hother
  · rwa [mem_singleton.1 hother]

end GatewayStream

open GatewayStream

section

variable {ρ : Type} (rt : JsRuntime ρ) (w : ResponseWriter ρ) (options : GatewayStreamOptions)
    {r : Bytes × StreamState}

/-- A stream that is read in some chunks: it is read as it is byte by byte, the response is finished
once, after the frame that ends the body and no other, and the bytes are within the limit. -/
structure GatewayStreamHolds (chunks : List Bytes) : Prop where
  same : readGatewayStreamResponse rt w options chunks =
    readGatewayStreamResponse rt w options (chunks.flatten.map ([·]))
  once : (readGatewayStreamResponse rt w options chunks).calls.countP isFinish ≤ 1
  finished : (readGatewayStreamResponse rt w options chunks).result = .ok () →
    (readGatewayStreamResponse rt w options chunks).calls.countP isFinish = 1
  bodyEnd : (readGatewayStreamResponse rt w options chunks).calls.countP isFinish ≠ 0 →
    EndsBody rt (chunks.flatten.splitOn 10)
  limit : passed (readGatewayStreamResponse rt w options chunks).calls ≤ options.bodyLimit

/-- From some point on, every chunk that is read is within the limit of a frame together with what
is left of the last line, unless reading on ends in the error of the limit in any case. -/
def WithinFrameLimit (r : Bytes × StreamState) (chunks : List Bytes) : Prop :=
  ∀ before chunk after r', chunks = before ++ chunk :: after →
    before.foldlM (readGatewayChunk rt w options) r = .ok r' →
      (r'.1 ++ chunk).length ≤ options.frameLimit ∨
        EndsInLimitError rt w options.frameLimit (phase r'.2) r'.1 (chunk ++ after.flatten)

variable {rt} {w} {options}

variable (rt) (w) (options) in
/-- The response is finished by the last call, at the end of the body. -/
theorem outcome_cases (chunks : List Bytes) :
    Unfinished options.bodyLimit (readGatewayStreamResponse rt w options chunks).calls ∧
      (readGatewayStreamResponse rt w options chunks).result ≠ .ok () ∨
    EndsBody rt (chunks.flatten.splitOn 10) ∧ ∃ calls head, Unfinished options.bodyLimit calls ∧
      (readGatewayStreamResponse rt w options chunks).calls = calls ++ [.finish head] := by
  have hnew : Sound options.bodyLimit .new := sound_new
  have hsound := sound_readOn rt w hnew [] chunks
  unfold readGatewayStreamResponse
  cases hrun : chunks.foldlM (readGatewayChunk rt w options) ([], .new) with
  | error =>
    rw [hrun] at hsound
    exact .inl ⟨hsound, nofun⟩
  | ok r =>
    rw [hrun] at hsound
    have hbind : ((Except.ok r : Except (StreamFailure ρ) _).bind (endGatewayStream w)) =
        endGatewayStream w r := rfl
    rw [hbind]
    rcases endGatewayStream_cases w r hsound.head with
      ⟨thrown, -, hend⟩ | ⟨hblank, hcompleted, head, hend⟩
    · rw [hend]
      exact .inl ⟨hsound.calls, nofun⟩
    · have hlines : LineReader.readLines 10 (readLine rt w options.bodyLimit) [] .new
          chunks.flatten = .ok r := by
        unfold readGatewayChunk at hrun
        exact LineReader.foldlM_readChunk_eq_readLines not_mem_nil hrun
      obtain ⟨lines, hsplit, hfold⟩ := LineReader.splitOn_of_readLines not_mem_nil hlines
      rw [nil_append] at hsplit
      refine .inr ⟨?_, r.2.calls, head, hsound.calls, ?_⟩
      · rw [hsplit]
        exact endsBody_append (endsBody_of_completed hfold hcompleted)
          (blank_of_isAsciiWhitespace hblank)
      · rw [hend]
        unfold StreamState.call
        cases w.answer r.2.calls (.finish head) <;> rfl

theorem withinFrameLimit_cons {chunk : Bytes} {chunks : List Bytes} :
    WithinFrameLimit rt w options r (chunk :: chunks) ↔
      ((r.1 ++ chunk).length ≤ options.frameLimit ∨
        EndsInLimitError rt w options.frameLimit (phase r.2) r.1 (chunk ++ chunks.flatten)) ∧
        ∀ r', readGatewayChunk rt w options r chunk = .ok r' →
          WithinFrameLimit rt w options r' chunks := by
  constructor
  · refine fun h => ⟨h [] chunk chunks r rfl rfl, ?_⟩
    rintro r' hread before chunk' after r'' rfl hbefore
    exact h (chunk :: before) chunk' after r'' rfl (Except.bind_eq_ok_iff.2 ⟨r', hread, hbefore⟩)
  · rintro ⟨hfirst, hrest⟩ before chunk' after r' hchunks hbefore
    cases before with
    | nil =>
      obtain ⟨rfl, rfl⟩ := List.cons.inj hchunks
      obtain rfl := Except.ok.inj hbefore
      exact hfirst
    | cons first before =>
      obtain ⟨rfl, rfl⟩ := List.cons.inj hchunks
      obtain ⟨r'', hread, hbefore⟩ := Except.bind_eq_ok_iff.1 hbefore
      exact hrest r'' hread before chunk' after r' rfl hbefore

theorem readOn_append (a b : List Bytes) :
    readOn rt w options r (a ++ b) =
      .of ((a.foldlM (readGatewayChunk rt w options) r).bind fun r' =>
        (b.foldlM (readGatewayChunk rt w options) r').bind (endGatewayStream w)) := by
  rw [readOn, foldlM_append]
  cases a.foldlM (readGatewayChunk rt w options) r <;> rfl

/-- Reading chunks is reading their bytes, exactly when they are within the limit. -/
theorem readOn_eq_iff (chunks : List Bytes) {line : Bytes} {s : StreamState} (hline : 10 ∉ line)
    (hs : Sound options.bodyLimit s) :
    readOn rt w options (line, s) chunks =
        readOn rt w options (line, s) (chunks.flatten.map ([·])) ↔
      WithinFrameLimit rt w options (line, s) chunks := by
  induction chunks generalizing line s with
  | nil => exact iff_of_true rfl fun before chunk after _ h => by simp at h
  | cons chunk chunks ih =>
    rw [withinFrameLimit_cons, flatten_cons]
    by_cases hlimit : (line ++ chunk).length ≤ options.frameLimit
    · -- the chunk is read as its bytes are
      have hbytes : readGatewayChunk rt w options (line, s) chunk =
          (chunk.map ([·])).foldlM (readGatewayChunk rt w options) (line, s) :=
        LineReader.readChunk_eq_foldlM hline hlimit
      rw [and_iff_right (.inl hlimit), map_append, readOn_append, ← hbytes]
      cases hread : readGatewayChunk rt w options (line, s) chunk with
      | error =>
        rw [readOn_cons_error hread]
        exact iff_of_true rfl nofun
      | ok r =>
        have hsound : (readGatewayChunk rt w options (line, s) chunk).Meets
            (fun r => Sound options.bodyLimit r.2) _ :=
          LineReader.readChunk_meets (fun _ line hs => hs.readLine line) (fun _ hs => hs.calls) _
            chunk hs
        rw [hread] at hsound
        rw [readOn_cons_ok hread]
        have hrest := ih (LineReader.not_mem_of_readChunk hline hread) hsound
        refine hrest.trans ⟨fun h r' hr' => ?_, fun h => h r rfl⟩
        rwa [← Except.ok.inj hr']
    · have hread : readGatewayChunk rt w options (line, s) chunk = .error _ :=
        if_pos (Nat.not_le.1 hlimit)
      have hall : ∀ r', readGatewayChunk rt w options (line, s) chunk = .ok r' →
          WithinFrameLimit rt w options r' chunks := by
        rw [hread]
        exact nofun
      rw [readOn_cons_error hread, or_iff_right hlimit, and_iff_left hall, eq_comm]
      exact readOn_bytes_iff _ hline hs

/-- Streams are read the same however they are cut, exactly when the chunks that are read are within
the limit. -/
theorem gatewayStreamHolds_iff (chunks : List Bytes) :
    GatewayStreamHolds rt w options chunks ↔
      WithinFrameLimit rt w options ([], .new) chunks := by
  have hsame : readGatewayStreamResponse rt w options chunks =
      readGatewayStreamResponse rt w options (chunks.flatten.map ([·])) ↔ _ :=
    readOn_eq_iff chunks not_mem_nil sound_new
  constructor
  · exact fun h => hsame.1 h.same
  · intro h
    rcases outcome_cases rt w options chunks with
      ⟨hcalls, hresult⟩ | ⟨hends, calls, head, hcalls, heq⟩
    · exact ⟨hsame.2 h, by rw [hcalls.finish]; exact Nat.zero_le 1, fun hok => absurd hok hresult,
        fun hne => absurd hcalls.finish hne, hcalls.limit⟩
    · have hcount : (readGatewayStreamResponse rt w options chunks).calls.countP isFinish = 1 := by
        rw [heq, countP_concat, hcalls.finish]
        rfl
      refine ⟨hsame.2 h, le_of_eq hcount, fun _ => hcount, fun _ => hends, ?_⟩
      rw [heq, passed_concat]
      exact hcalls.limit

end

/-! ### Two frames in one chunk -/

def responseLine : Text := "\x7b\"type\":\"response\",\"status\":200\x7d".toList

def bodyEndLine : Text := "\x7b\"type\":\"body_end\"\x7d".toList

/-- A runtime that reads the two lines. -/
def twoFramesRuntime : JsRuntime Unit where
  parse t :=
    if t = responseLine then
      .ok (.object .plain [(js "type", .string (js "response")), (js "status", .number 200)])
    else if t = bodyEndLine then .ok (.object .plain [(js "type", .string (js "body_end"))])
    else .error (js "Unexpected token")
  string
    | .string t => .ok t
    | _ => .error ()
  toLowerCase t := t

def willingWriter : ResponseWriter Unit := ⟨true, true, true, fun _ _ => .ok ()⟩

/-- Two lines within the limit that are beyond it together. -/
def twoFrames : Bytes :=
  Utf8.encode responseLine ++ 10 :: (Utf8.encode bodyEndLine ++ [10])

/-- They are refused in one chunk, and read byte by byte. -/
theorem not_gatewayStreamHolds_twoFrames :
    ¬GatewayStreamHolds twoFramesRuntime willingWriter ⟨some 40, none⟩ [twoFrames] := by
  intro h
  have hcalls := congrArg (fun outcome => outcome.calls.length) h.same
  have hchunk : (readGatewayStreamResponse twoFramesRuntime willingWriter ⟨some 40, none⟩
      [twoFrames]).calls.length = 0 := by
    decide +kernel
  have hbytes : (readGatewayStreamResponse twoFramesRuntime willingWriter ⟨some 40, none⟩
      ([twoFrames].flatten.map ([·]))).calls.length = 2 := by
    decide +kernel
  rw [hchunk, hbytes] at hcalls
  cases hcalls

end WasmHost

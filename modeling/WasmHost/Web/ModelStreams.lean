import WasmHost.Web.ModelResponse

/-!
# Streams of model events, however they are cut

The events of a stream by its lines, what they come to, and what the writer makes of a body that
comes in chunks.

* `streamEvents`: the events of a text, line by line.
* `modelResponse_eq`: the writer handles the events of the text in which every chunk has its line
  ends normalized by itself.
* `modelStreamHolds_of_readsAs`: the output is that of the stream when these events are those of the
  stream, and is not when one of them fails that the stream does not have.
* `modelResponse_eq_whole`: what comes in chunks gives what comes whole, if no line end is cut.
-/

namespace WasmHost

open List

open Tool (JsText JsValue js)

/-! ### The events of a stream -/

/-- An event is ended by an empty line. -/
def eventsFrom (e : SseEvent) : List Text → List SseEvent
  | [] => e.kept.toList
  | line :: lines =>
    if line = [] then e.kept.toList ++ eventsFrom .empty lines
    else eventsFrom (e.readLine line) lines

/-- The events of a text whose lines are ended by line feeds; the last one need not be ended. -/
def streamEvents (t : Text) : List SseEvent := eventsFrom .empty (t.splitOn '\n')

/-! ### Line ends -/

theorem normalize_cons {c : Char} (h : c ≠ '\r') (t : Text) :
    normalizeSseNewlines (c :: t) = c :: normalizeSseNewlines t := by
  rw [normalizeSseNewlines, replaceCrLf, if_neg fun h' => h h'.1, map_cons, if_neg h]
  rfl

theorem return_not_mem_normalize (t : Text) : '\r' ∉ normalizeSseNewlines t := by
  rw [normalizeSseNewlines, mem_map]
  rintro ⟨c, -, hc⟩
  split_ifs at hc with hreturn
  · exact absurd hc (by decide)
  · exact hreturn hc

/-- What was normalized stays as it is. -/
theorem normalize_append_of_not_mem {a : Text} (h : '\r' ∉ a) (b : Text) :
    normalizeSseNewlines (a ++ b) = a ++ normalizeSseNewlines b := by
  induction a with
  | nil => rfl
  | cons c a ih =>
    rw [mem_cons, not_or] at h
    rw [cons_append, normalize_cons (Ne.symm h.1), ih h.2, cons_append]

/-- A text that is not cut between a carriage return and a line feed. -/
theorem normalize_append {a b : Text} (h : a.getLast? = some '\r' → b.head? ≠ some '\n') :
    normalizeSseNewlines (a ++ b) = normalizeSseNewlines a ++ normalizeSseNewlines b := by
  have hreplace : replaceCrLf (a ++ b) = replaceCrLf a ++ replaceCrLf b := by
    induction a with
    | nil => rfl
    | cons c a ih =>
      have hrest : a.getLast? = some '\r' → b.head? ≠ some '\n' := by
        intro hlast
        refine h ?_
        rw [List.getLast?_cons, hlast]
        rfl
      have hnext : (c = '\r' ∧ (a ++ b).head? = some '\n') ↔ c = '\r' ∧ a.head? = some '\n' := by
        cases a with
        | nil =>
          refine iff_of_false ?_ (by simp)
          rintro ⟨rfl, hhead⟩
          exact h rfl hhead
        | cons => rfl
      rw [cons_append, replaceCrLf, replaceCrLf, ih hrest]
      by_cases hcut : c = '\r' ∧ a.head? = some '\n'
      · rw [if_pos (hnext.2 hcut), if_pos hcut]
      · rw [if_neg fun h => hcut (hnext.1 h), if_neg hcut, cons_append]
  rw [normalizeSseNewlines, hreplace, map_append]
  rfl

/-! ### Frames and events -/

theorem kept_empty : SseEvent.kept .empty = none := rfl

theorem eventsFrom_append (e : SseEvent) (a b : List Text) :
    eventsFrom e (a ++ [] :: b) = eventsFrom e a ++ eventsFrom .empty b := by
  induction a generalizing e with
  | nil => exact if_pos rfl
  | cons line a ih =>
    rw [cons_append, eventsFrom, eventsFrom]
    split_ifs
    · rw [ih, append_assoc]
    · exact ih _

/-- Lines with no empty one before the last are one event. -/
theorem eventsFrom_of_dropLast {lines : List Text} (e : SseEvent)
    (h : ∀ line ∈ lines.dropLast, line ≠ []) :
    eventsFrom e lines = (lines.foldl SseEvent.readLine e).kept.toList := by
  induction lines generalizing e with
  | nil => rfl
  | cons line lines ih =>
    rw [eventsFrom, foldl_cons]
    by_cases hline : line = []
    · -- an empty line can only be the last
      have hlast : lines = [] := by
        by_contra hne
        exact h line (by rw [dropLast_cons_of_ne_nil hne]; exact mem_cons_self) hline
      subst hlast hline
      rw [if_pos rfl, eventsFrom, kept_empty, foldl_nil]
      exact append_nil _
    · rw [if_neg hline]
      refine ih _ fun l hl => h l ?_
      cases lines with
      | nil => cases hl
      | cons =>
        rw [dropLast_cons_of_ne_nil (cons_ne_nil _ _)]
        exact mem_cons_of_mem _ hl

theorem join_append {a b : List Text} (ha : a ≠ []) (hb : b ≠ []) :
    ['\n'].intercalate (a ++ b) = ['\n'].intercalate a ++ '\n' :: ['\n'].intercalate b := by
  induction a with
  | nil => exact absurd rfl ha
  | cons x a ih =>
    cases a with
    | nil =>
      obtain ⟨y, b', rfl⟩ := exists_cons_of_ne_nil hb
      rw [singleton_append, intercalate_cons_cons, intercalate_singleton]
      simp
    | cons =>
      have hrest := ih (cons_ne_nil _ _)
      rw [cons_append] at hrest
      rw [cons_append, cons_append, intercalate_cons_cons, hrest, intercalate_cons_cons]
      simp

/-- A frame is one event at most. -/
theorem streamEvents_of_frame {t : Text} (h : ¬['\n', '\n'] <:+: t) :
    streamEvents t = (parseSseFrame t).toList := by
  have hjoin : ['\n'].intercalate (t.splitOn '\n') = t := intercalate_splitOn '\n'
  rw [streamEvents, parseSseFrame]
  obtain ⟨line, lines, hlines⟩ : ∃ line lines, t.splitOn '\n' = line :: lines :=
    exists_cons_of_ne_nil (splitOn_ne_nil _ _)
  rw [hlines] at hjoin ⊢
  have hinner : ∀ l ∈ lines.dropLast, l ≠ [] := by
    rintro l hl rfl
    obtain ⟨before, after, hsplit⟩ := append_of_mem hl
    have hne : lines ≠ [] := by
      rintro rfl
      cases hl
    refine h ?_
    have hall : line :: lines = (line :: before) ++ ([[]] ++ (after ++ [lines.getLast hne])) := by
      conv_lhs => rw [← dropLast_append_getLast hne, hsplit]
      simp
    rw [hall, join_append (by simp) (by simp), join_append (by simp) (by simp)] at hjoin
    refine ⟨['\n'].intercalate (line :: before),
      ['\n'].intercalate (after ++ [lines.getLast hne]), ?_⟩
    rw [← hjoin]
    simp
  by_cases hline : line = []
  · rw [eventsFrom, if_pos hline, kept_empty, eventsFrom_of_dropLast _ hinner, hline, foldl_cons]
    rfl
  · refine eventsFrom_of_dropLast _ fun l hl => ?_
    cases lines with
    | nil => cases hl
    | cons =>
      rw [dropLast_cons_of_ne_nil (cons_ne_nil _ _)] at hl
      rcases mem_cons.1 hl with rfl | hl
      · exact hline
      · exact hinner l hl

/-- The frames of a text, with what is left, have the events of the text. -/
theorem filterMap_cutFrames (t : Text) :
    ((cutFrames t).1 ++ [(cutFrames t).2]).filterMap parseSseFrame = streamEvents t := by
  unfold cutFrames
  induction hlen : t.length using Nat.strong_induction_on generalizing t with
  | _ n ih =>
    cases hsplit : splitInfix ['\n', '\n'] t with
    | none =>
      rw [splitAll_of_none hsplit, streamEvents_of_frame (splitInfix_eq_none_iff.1 hsplit)]
      rw [nil_append, filterMap_cons]
      cases parseSseFrame t <;> rfl
    | some parts =>
      obtain ⟨before, after⟩ := parts
      obtain ⟨ht, hfirst⟩ := splitInfix_eq_some_iff.1 hsplit
      have hframe : ¬['\n', '\n'] <:+: before := by
        rintro ⟨start, rest, hbefore⟩
        have hle := hfirst start (rest ++ (['\n', '\n'] ++ after)) (by
          rw [ht, ← hbefore]
          simp)
        have hlen := congrArg List.length hbefore
        simp only [length_append, length_cons, length_nil] at hlen
        omega
      have hlines : t.splitOn '\n' = before.splitOn '\n' ++ [] :: after.splitOn '\n' := by
        have hcut : t = before ++ '\n' :: ([] ++ '\n' :: after) := ht
        rw [hcut, SepPath.splitOn_append_sep, SepPath.splitOn_append_sep]
        rfl
      have hrest := ih after.length (hlen ▸ length_lt_of_splitInfix (by decide) hsplit) after rfl
      rw [splitAll_of_some hsplit, cons_append, filterMap_cons]
      rw [streamEvents, hlines, eventsFrom_append]
      have hbefore := streamEvents_of_frame hframe
      rw [streamEvents] at hbefore
      rw [hbefore, ← streamEvents, ← hrest]
      cases parseSseFrame before <;> rfl

/-! ### What the writer makes of a body -/

section

variable {ρ : Type} {rt : JsRuntime ρ}

theorem foldlM_handleFrame (frames : List Text) (stdout : Bytes) :
    frames.foldlM (handleFrame rt) stdout =
      (frames.filterMap parseSseFrame).foldlM (putEvent rt) stdout := by
  induction frames generalizing stdout with
  | nil => rfl
  | cons frame frames ih =>
    rw [foldlM_cons, filterMap_cons, handleFrame]
    cases parseSseFrame frame with
    | none => exact ih stdout
    | some e =>
      rw [foldlM_cons]
      dsimp only
      cases putEvent rt stdout e with
      | error => rfl
      | ok stdout' => exact ih stdout'

/-- A line with no field that counts. -/
theorem readLine_of_other {line : Text} (e : SseEvent) (hcolon : ':' ∉ line)
    (hevent : line ≠ "event".toList) (hdata : line ≠ "data".toList) : e.readLine line = e := by
  rw [SseEvent.readLine]
  by_cases hskip : line = [] ∨ line.head? = some ':'
  · rw [if_pos hskip]
  · rw [if_neg hskip, splitOnce_eq_none_iff.2 hcolon]
    show (if line = "event".toList then _ else if line = "data".toList then _ else e) = e
    rw [if_neg hevent, if_neg hdata]

/-- A frame of white space has no event. -/
theorem parseSseFrame_of_blank {frame : Text} (h : jsTrim (toUnits frame) = []) :
    parseSseFrame frame = none := by
  rw [jsTrim_eq_nil_iff] at h
  have hspace : ∀ c ∈ frame, c ∉ [':', 'e', 'd'] := by
    intro c hc hmem
    have hunits : ∀ u ∈ charUnits c, isJsSpace u = true :=
      fun u hu => h u (mem_flatMap.2 ⟨c, hc, hu⟩)
    simp only [mem_cons, not_mem_nil, or_false] at hmem
    rcases hmem with rfl | rfl | rfl
    · exact absurd (hunits 58 mem_cons_self) (by decide)
    · exact absurd (hunits 101 mem_cons_self) (by decide)
    · exact absurd (hunits 100 mem_cons_self) (by decide)
  have hlines : ∀ line ∈ frame.splitOn '\n', ∀ e : SseEvent, e.readLine line = e := by
    intro line hline e
    have hchars : ∀ c ∈ line, c ∉ [':', 'e', 'd'] := by
      intro c hc hmem
      have hne : c ≠ '\n' := by
        rintro rfl
        exact absurd hmem (by decide)
      exact hspace c ((SepPath.mem_iff_exists_mem_splitOn hne).2 ⟨line, hline, hc⟩) hmem
    cases line with
    | nil => rfl
    | cons c line =>
      have hcolon : ':' ∉ c :: line := fun hmem => hchars ':' hmem (by simp)
      have hc := hchars c mem_cons_self
      simp only [mem_cons, not_mem_nil, or_false, not_or] at hc
      exact readLine_of_other e hcolon (fun heq => hc.2.1 (List.cons.inj heq).1)
        fun heq => hc.2.2 (List.cons.inj heq).1
  have hfold : ∀ lines : List Text, (∀ line ∈ lines, ∀ e : SseEvent, e.readLine line = e) →
      lines.foldl SseEvent.readLine .empty = .empty := by
    intro lines
    induction lines with
    | nil => exact fun _ => rfl
    | cons line lines ih =>
      intro hall
      rw [foldl_cons, hall line mem_cons_self]
      exact ih fun l hl => hall l (mem_cons_of_mem _ hl)
  rw [parseSseFrame, hfold _ hlines]
  rfl

/-- The events of a text, after what the output was given. -/
def putEvents (rt : JsRuntime ρ) (stdout : Bytes) (t : Text) : Except (ModelFailure ρ) Bytes :=
  (streamEvents t).foldlM (putEvent rt) stdout

theorem putEvents_eq (stdout : Bytes) (t : Text) :
    putEvents rt stdout t =
      ((cutFrames t).1.foldlM (handleFrame rt) stdout).bind fun stdout' =>
        handleFrame rt stdout' (cutFrames t).2 := by
  rw [putEvents, ← filterMap_cutFrames, ← foldlM_handleFrame, foldlM_append]
  cases (cutFrames t).1.foldlM (handleFrame rt) stdout with
  | error => rfl
  | ok stdout' =>
    show ([(cutFrames t).2].foldlM (handleFrame rt) stdout') = _
    rw [foldlM_cons]
    show (handleFrame rt stdout' (cutFrames t).2).bind _ = handleFrame rt stdout' (cutFrames t).2
    cases handleFrame rt stdout' (cutFrames t).2 <;> rfl

/-- The frames that are there already are handled first. -/
theorem putEvents_append (stdout : Bytes) (t more : Text) :
    putEvents rt stdout (t ++ more) =
      ((cutFrames t).1.foldlM (handleFrame rt) stdout).bind fun stdout' =>
        putEvents rt stdout' ((cutFrames t).2 ++ more) := by
  have hevents : streamEvents (t ++ more) =
      (cutFrames t).1.filterMap parseSseFrame ++ streamEvents ((cutFrames t).2 ++ more) := by
    have hcut : cutFrames (t ++ more) = ((cutFrames t).1 ++ (cutFrames ((cutFrames t).2 ++ more)).1,
        (cutFrames ((cutFrames t).2 ++ more)).2) := splitAll_append t more
    rw [← filterMap_cutFrames, ← filterMap_cutFrames ((cutFrames t).2 ++ more), hcut,
      ← filterMap_append, append_assoc]
  rw [putEvents, hevents, foldlM_append, ← foldlM_handleFrame]
  rfl

/-- What is left of a text is a part of it. -/
theorem mem_of_mem_cutFrames {c : Char} {t : Text} (h : c ∈ (cutFrames t).2) : c ∈ t := by
  unfold cutFrames at h
  induction hlen : t.length using Nat.strong_induction_on generalizing t with
  | _ n ih =>
    cases hsplit : splitInfix ['\n', '\n'] t with
    | none =>
      rwa [splitAll_of_none hsplit] at h
    | some parts =>
      obtain ⟨before, after⟩ := parts
      rw [splitAll_of_some hsplit] at h
      have hmem := ih after.length (hlen ▸ length_lt_of_splitInfix (by decide) hsplit) h rfl
      rw [(firstInfix_of_splitInfix hsplit).1]
      simp [hmem]

/-- The text of some texts, each with its line ends normalized by itself. -/
def joinNormalized (texts : List Text) : Text := texts.flatMap normalizeSseNewlines

/-- What the writer of events does with the parts of a body and with its end. -/
def writeAll (rt : JsRuntime ρ) (sse : SseWriter) (stdout : Bytes) (parts : List Bytes) :
    Except (ModelFailure ρ) Bytes :=
  (parts.foldlM (fun r chunk => SseWriter.write rt r.1 chunk r.2) (sse, stdout)).bind fun r =>
    SseWriter.finish rt r.1 r.2

theorem writeAll_eq (parts : List Bytes) (buffer : Text) (decoder : Utf8.Decoder) (stdout : Bytes)
    (hbuffer : '\r' ∉ buffer) :
    writeAll rt ⟨buffer, decoder⟩ stdout parts =
      putEvents rt stdout (buffer ++ joinNormalized (decoder.texts parts)) := by
  induction parts generalizing buffer decoder stdout with
  | nil =>
    have hdrain : ∀ t, drainEvents rt (buffer ++ t) stdout =
        ((cutFrames (buffer ++ normalizeSseNewlines t)).1.foldlM (handleFrame rt) stdout).map
          ((cutFrames (buffer ++ normalizeSseNewlines t)).2, ·) := by
      intro t
      rw [drainEvents, normalize_append_of_not_mem hbuffer]
    have htexts : joinNormalized (decoder.texts []) = normalizeSseNewlines decoder.finish :=
      append_nil _
    rw [htexts, putEvents_eq]
    show SseWriter.finish rt ⟨buffer, decoder⟩ stdout = _
    unfold SseWriter.finish
    rw [hdrain]
    cases (cutFrames (buffer ++ normalizeSseNewlines decoder.finish)).1.foldlM (handleFrame rt)
      stdout with
    | error failure => rfl
    | ok stdout' =>
      show (if jsTrim (toUnits (cutFrames _).2) ≠ [] then handleFrame rt stdout' _ else _) =
        handleFrame rt stdout' _
      split_ifs with hblank
      · rfl
      · rw [handleFrame, parseSseFrame_of_blank (not_not.1 hblank)]
        rfl
  | cons chunk parts ih =>
    have htexts : joinNormalized (decoder.texts (chunk :: parts)) =
        normalizeSseNewlines (decoder.push chunk).1 ++
          joinNormalized ((decoder.push chunk).2.texts parts) := rfl
    have hbuffer' : '\r' ∉ buffer ++ normalizeSseNewlines (decoder.push chunk).1 := by
      rw [mem_append, not_or]
      exact ⟨hbuffer, return_not_mem_normalize _⟩
    rw [htexts, ← append_assoc]
    rw [writeAll, foldlM_cons]
    have hwrite : SseWriter.write rt ⟨buffer, decoder⟩ chunk stdout =
        ((cutFrames (buffer ++ normalizeSseNewlines (decoder.push chunk).1)).1.foldlM
          (handleFrame rt) stdout).map fun stdout' =>
            (⟨(cutFrames (buffer ++ normalizeSseNewlines (decoder.push chunk).1)).2,
              (decoder.push chunk).2⟩, stdout') := by
      rw [SseWriter.write, drainEvents, normalize_append_of_not_mem hbuffer]
      cases (cutFrames (buffer ++ normalizeSseNewlines (decoder.push chunk).1)).1.foldlM
        (handleFrame rt) stdout <;> rfl
    generalize buffer ++ normalizeSseNewlines (decoder.push chunk).1 = text at hwrite hbuffer' ⊢
    rw [putEvents_append, hwrite]
    cases (cutFrames text).1.foldlM (handleFrame rt) stdout with
    | error => rfl
    | ok stdout' =>
      exact ih (cutFrames text).2 (decoder.push chunk).2 stdout' fun hmem =>
        hbuffer' (mem_of_mem_cutFrames hmem)

/-- The parts in which a body comes. -/
def bodyParts (chunks : List Bytes) (body : Bytes) : List Bytes :=
  if body = [] then chunks else chunks ++ [body]

variable {status : ℕ} {headers : List (JsText × JsText)}

/-- The writer of a stream of events that has started. -/
def streaming (status : ℕ) (headers : List (JsText × JsText)) (sse : SseWriter) (stdout : Bytes) :
    ModelResponseWriter :=
  ⟨some status, headers, some sse, stdout⟩

section

variable (hstatus : isSuccessfulHttpStatus status = true)

include hstatus

variable (sse : SseWriter)

theorem writeBodyChunk_streaming (stdout : Bytes) (chunk : Bytes) :
    (streaming status headers sse stdout).writeBodyChunk rt chunk =
      (sse.write rt chunk stdout).map fun r => streaming status headers r.1 r.2 := by
  have hall : ((streaming status headers sse stdout).status.all isSuccessfulHttpStatus) = true :=
    hstatus
  rw [ModelResponseWriter.writeBodyChunk, if_neg (by rw [hall]; exact nofun)]
  rfl

theorem foldlM_writeBodyChunk (stdout : Bytes) (chunks : List Bytes) :
    chunks.foldlM (ModelResponseWriter.writeBodyChunk rt) (streaming status headers sse stdout) =
      (chunks.foldlM (fun r chunk => SseWriter.write rt r.1 chunk r.2) (sse, stdout)).map fun r =>
        streaming status headers r.1 r.2 := by
  induction chunks generalizing sse stdout with
  | nil => rfl
  | cons chunk chunks ih =>
    rw [foldlM_cons, foldlM_cons, writeBodyChunk_streaming hstatus]
    cases sse.write rt chunk stdout with
    | error => rfl
    | ok r => exact ih r.1 r.2

theorem finish_streaming (stdout : Bytes) (body : Bytes) :
    ((streaming status headers sse stdout).finish rt status headers body).map
        ModelResponseWriter.stdout =
      ((bodyParts [] body).foldlM (fun r chunk => SseWriter.write rt r.1 chunk r.2)
        (sse, stdout)).bind fun r => SseWriter.finish rt r.1 r.2 := by
  have hconfigure : ModelResponseWriter.configureResponseDecoder rt
      { streaming status headers sse stdout with status := some status, headers := headers } =
        streaming status headers sse stdout := if_pos (.inl rfl)
  have hend : ∀ r : SseWriter × Bytes, (if isSuccessfulHttpStatus status = true then
      (r.1.finish rt r.2).map fun stdout =>
        { streaming status headers r.1 r.2 with stdout := stdout }
      else .ok (streaming status headers r.1 r.2)).map ModelResponseWriter.stdout =
        r.1.finish rt r.2 := by
    intro r
    rw [if_pos hstatus]
    cases r.1.finish rt r.2 <;> rfl
  unfold ModelResponseWriter.finish bodyParts
  rw [hconfigure]
  by_cases hbody : body = []
  · rw [if_neg fun h => h.2 hbody, if_pos hbody]
    exact hend (sse, stdout)
  · rw [if_pos ⟨hstatus, hbody⟩, if_neg hbody, writeBodyChunk_streaming hstatus, nil_append,
      foldlM_cons]
    cases sse.write rt body stdout with
    | error => rfl
    | ok r => exact hend r

/-- A response with a stream of events: the writer handles the events of the text in which every
part has its line ends normalized by itself. -/
theorem modelResponse_eq (hevents : isEventStreamResponse rt headers = true) (chunks : List Bytes)
    (body : Bytes) :
    modelResponse rt status headers chunks body =
      .of (putEvents rt [] (joinNormalized (Utf8.Decoder.new.texts (bodyParts chunks body)))) := by
  have hstart : ModelResponseWriter.new.start rt status headers =
      streaming status headers .new [] := by
    refine if_neg ?_
    rintro (h | h | h)
    · cases h
    · have hany : isSuccessfulHttpStatus status = false := h
      rw [hstatus] at hany
      cases hany
    · rw [hevents] at h
      cases h
  have hparts : bodyParts chunks body = chunks ++ bodyParts [] body := by
    unfold bodyParts
    split_ifs
    · exact (append_nil _).symm
    · rfl
  have hall : writeAll rt .new [] (bodyParts chunks body) =
      putEvents rt [] (joinNormalized (Utf8.Decoder.new.texts (bodyParts chunks body))) :=
    writeAll_eq _ [] .new [] not_mem_nil
  rw [← hall, writeAll, hparts, foldlM_append, modelResponse, hstart, foldlM_writeBodyChunk hstatus]
  cases chunks.foldlM (fun r chunk => SseWriter.write rt r.1 chunk r.2) (SseWriter.new, []) with
  | error => rfl
  | ok r => exact congrArg ModelOutcome.of (finish_streaming hstatus r.1 r.2 body)

end

end

/-! ### What a stream stands for -/

/-- What an event does to the output. -/
inductive EventMeaning
  | nothing
  | text (bytes : Bytes)
  | failure

section

variable {ρ : Type} (rt : JsRuntime ρ)

/-- A delta is its text; an error, a delta without a text and data that is not JSON are failures. An
event without data, or without a type, is nothing. -/
def eventMeaning (e : SseEvent) : EventMeaning :=
  if e.data = [] ∨ jsTrim (toUnits e.dataText) = js "[DONE]" then .nothing
  else
    match rt.parse e.dataText with
    | .error _ => .failure
    | .ok payload =>
      match eventType rt e payload with
      | .error _ => .nothing
      | .ok type =>
        if type = js "response.output_text.delta" then
          match payload.field "delta" with
          | .string delta => .text (encodeUnits delta)
          | _ => .failure
        else if type = js "response.error" then .failure
        else .nothing

/-- The texts up to the first failure, and whether there is one. -/
def expectedOutput : List SseEvent → Bytes × Bool
  | [] => ([], false)
  | e :: events =>
    match eventMeaning rt e with
    | .nothing => expectedOutput events
    | .text bytes => (bytes ++ (expectedOutput events).1, (expectedOutput events).2)
    | .failure => ([], true)

/-- The output of an outcome, and whether something was thrown. -/
def ModelOutcome.output (outcome : ModelOutcome ρ) : Bytes × Bool :=
  (outcome.stdout, outcome.thrown.isSome)

/-- A response to a request of the model, in chunks: nothing is written unless it is successful, and
a stream of events gives the output of the stream. -/
structure ModelStreamHolds (status : ℕ) (headers : List (JsText × JsText)) (chunks : List Bytes)
    (body : Bytes) : Prop where
  refused : isSuccessfulHttpStatus status = false →
    (modelResponse rt status headers chunks body).output = ([], false)
  events : isSuccessfulHttpStatus status = true → isEventStreamResponse rt headers = true →
    (modelResponse rt status headers chunks body).output = expectedOutput rt
      (streamEvents (normalizeSseNewlines (Utf8.textDecode (chunks.flatten ++ body))))

/-- The output of events that are handled one after another. -/
def handledOutput (events : List SseEvent) : Bytes × Bool :=
  (ModelOutcome.of (events.foldlM (putEvent rt) [])).output

/-- An event that has data, and a type if the data is JSON. -/
structure Regular (e : SseEvent) : Prop where
  data : e.data ≠ []
  typed : ∀ payload, jsTrim (toUnits e.dataText) ≠ js "[DONE]" → rt.parse e.dataText = .ok payload →
    ∃ type, eventType rt e payload = .ok type

/-- The events that are read are those of the stream, and regular, up to the first that is a
failure. -/
def ReadsAs : List SseEvent → List SseEvent → Prop
  | [], [] => True
  | e :: read, e' :: stream =>
    e = e' ∧ Regular rt e' ∧ (eventMeaning rt e' = .failure ∨ ReadsAs read stream)
  | _, _ => False

/-- Behind events that are those of the stream, and regular, one that fails is read where the stream
ends, does not fail any more or has a text before it does. -/
def Misreads : List SseEvent → List SseEvent → Prop
  | [], _ => False
  | e :: read, stream =>
    ((∃ thrown, handleEvent rt e = .error thrown) ∧ expectedOutput rt stream ≠ ([], true)) ∨
      ∃ rest, stream = e :: rest ∧ Regular rt e ∧ eventMeaning rt e ≠ .failure ∧
        Misreads read rest

variable {rt}

theorem output_putEvents (stdout : Bytes) (events : List SseEvent) :
    (ModelOutcome.of (events.foldlM (putEvent rt) stdout)).output =
      (stdout ++ (handledOutput rt events).1, (handledOutput rt events).2) := by
  induction events generalizing stdout with
  | nil => exact Prod.ext (append_nil stdout).symm rfl
  | cons e events ih =>
    rw [handledOutput, foldlM_cons, foldlM_cons, putEvent, putEvent]
    cases handleEvent rt e with
    | error => exact Prod.ext (append_nil stdout).symm rfl
    | ok bytes =>
      show (ModelOutcome.of (events.foldlM (putEvent rt) (stdout ++ bytes))).output =
        (stdout ++ (ModelOutcome.of (events.foldlM (putEvent rt) ([] ++ bytes))).output.1,
          (ModelOutcome.of (events.foldlM (putEvent rt) ([] ++ bytes))).output.2)
      rw [ih, ih, append_assoc, nil_append]

variable {e : SseEvent}

theorem handledOutput_cons_ok {bytes : Bytes} (h : handleEvent rt e = .ok bytes)
    (events : List SseEvent) :
    handledOutput rt (e :: events) =
      (bytes ++ (handledOutput rt events).1, (handledOutput rt events).2) := by
  have hput : putEvent rt [] e = .ok bytes := by rw [putEvent, h]; rfl
  rw [handledOutput, foldlM_cons, hput]
  exact output_putEvents bytes events

theorem handledOutput_cons_error {thrown : ModelThrown ρ} (h : handleEvent rt e = .error thrown)
    (events : List SseEvent) : handledOutput rt (e :: events) = ([], true) := by
  have hput : putEvent rt [] e = .error ⟨thrown, []⟩ := by rw [putEvent, h]
  rw [handledOutput, foldlM_cons, hput]
  rfl

/-- A regular event is handled by what it stands for. -/
theorem Regular.handleEvent (h : Regular rt e) :
    (eventMeaning rt e = .nothing ∧ handleEvent rt e = .ok []) ∨
      (∃ bytes, eventMeaning rt e = .text bytes ∧ handleEvent rt e = .ok bytes) ∨
        eventMeaning rt e = .failure ∧ ∃ thrown, handleEvent rt e = .error thrown := by
  unfold eventMeaning WasmHost.handleEvent
  by_cases hdone : jsTrim (toUnits e.dataText) = js "[DONE]"
  · rw [if_pos (.inr hdone), if_pos hdone]
    exact .inl ⟨rfl, rfl⟩
  rw [if_neg (not_or.2 ⟨h.data, hdone⟩), if_neg hdone]
  cases hparse : rt.parse e.dataText with
  | error => exact .inr (.inr ⟨rfl, _, rfl⟩)
  | ok payload =>
    obtain ⟨type, htype⟩ := h.typed payload hdone hparse
    dsimp only
    rw [htype]
    dsimp only
    unfold writeTextDelta
    by_cases hdelta : type = js "response.output_text.delta"
    · rw [if_pos hdelta, if_pos hdelta]
      cases payload.field "delta" with
      | string => exact .inr (.inl ⟨_, rfl, rfl⟩)
      | _ => exact .inr (.inr ⟨rfl, _, rfl⟩)
    · rw [if_neg hdelta, if_neg hdelta]
      split_ifs
      · exact .inr (.inr ⟨rfl, _, rfl⟩)
      · exact .inl ⟨rfl, rfl⟩

/-- After a regular event that both have, the rest decides. -/
theorem Regular.output_eq_iff (h : Regular rt e) (read stream : List SseEvent) :
    handledOutput rt (e :: read) = expectedOutput rt (e :: stream) ↔
      eventMeaning rt e = .failure ∨ handledOutput rt read = expectedOutput rt stream := by
  rw [expectedOutput]
  rcases h.handleEvent with ⟨hmeaning, hhandle⟩ | ⟨bytes, hmeaning, hhandle⟩ |
    ⟨hmeaning, thrown, hhandle⟩
  · rw [handledOutput_cons_ok hhandle, hmeaning]
    simp
  · rw [handledOutput_cons_ok hhandle, hmeaning]
    simp [Prod.ext_iff]
  · rw [handledOutput_cons_error hhandle, hmeaning]
    simp

theorem ReadsAs.output_eq {read stream : List SseEvent} (h : ReadsAs rt read stream) :
    handledOutput rt read = expectedOutput rt stream := by
  induction read generalizing stream with
  | nil =>
    cases stream with
    | nil => rfl
    | cons => exact h.elim
  | cons e read ih =>
    cases stream with
    | nil => exact h.elim
    | cons e' stream =>
      obtain ⟨rfl, hregular, hrest⟩ := h
      exact (hregular.output_eq_iff read stream).2 (hrest.imp_right ih)

theorem Misreads.output_ne {read stream : List SseEvent} (h : Misreads rt read stream) :
    handledOutput rt read ≠ expectedOutput rt stream := by
  induction read generalizing stream with
  | nil => exact h.elim
  | cons e read ih =>
    rcases h with ⟨⟨thrown, hthrown⟩, hstream⟩ | ⟨rest, rfl, hregular, hmeaning, hrest⟩
    · rw [handledOutput_cons_error hthrown]
      exact hstream.symm
    · exact fun heq =>
        ((hregular.output_eq_iff read rest).1 heq).elim hmeaning (ih hrest)

/-- The events that the writer reads of a body. -/
def readEvents (chunks : List Bytes) (body : Bytes) : List SseEvent :=
  streamEvents (joinNormalized (Utf8.Decoder.new.texts (bodyParts chunks body)))

/-- No part begins with the line feed of a carriage return before it. -/
def Uncut (texts : List Text) : Prop :=
  ∀ before after, texts = before ++ after → before.flatten.getLast? = some '\r' →
    after.flatten.head? ≠ some '\n'

theorem joinNormalized_of_uncut {texts : List Text} (h : Uncut texts) :
    joinNormalized texts = normalizeSseNewlines texts.flatten := by
  induction texts with
  | nil => rfl
  | cons t texts ih =>
    have hrest : Uncut texts := by
      rintro before after rfl hlast
      refine h (t :: before) after rfl ?_
      rw [flatten_cons, List.getLast?_append, hlast]
      rfl
    have hfirst : t.getLast? = some '\r' → texts.flatten.head? ≠ some '\n' := by
      refine fun hlast => h [t] texts rfl ?_
      rwa [flatten_singleton]
    rw [flatten_cons, normalize_append hfirst, ← ih hrest]
    rfl

theorem flatten_bodyParts (chunks : List Bytes) (body : Bytes) :
    (bodyParts chunks body).flatten = chunks.flatten ++ body := by
  unfold bodyParts
  split_ifs with hbody
  · rw [hbody, append_nil]
  · rw [flatten_append, flatten_singleton]

/-- A body that comes whole is cut nowhere: what the decoder holds at its end is no line feed. -/
theorem uncut_whole (body : Bytes) : Uncut (Utf8.Decoder.new.texts (bodyParts [] body)) := by
  have hfinish : ∀ d : Utf8.Decoder, d.finish.head? ≠ some '\n' := by
    intro d
    unfold Utf8.Decoder.finish Utf8.flush
    split_ifs <;> decide
  rintro before after hparts hlast
  cases before with
  | nil => cases hlast
  | cons =>
    unfold bodyParts at hparts
    split_ifs at hparts
    · have hempty := (List.cons.inj hparts).2
      rw [(append_eq_nil_iff.1 hempty.symm).2]
      exact nofun
    · have hend := (List.cons.inj hparts).2
      rcases append_eq_singleton_iff.1 hend.symm with ⟨-, rfl⟩ | ⟨-, rfl⟩
      · rw [flatten_singleton]
        exact hfinish _
      · exact nofun

theorem modelResponse_refused {status : ℕ} (h : isSuccessfulHttpStatus status = false)
    (headers : List (JsText × JsText)) (chunks : List Bytes) (body : Bytes) :
    modelResponse rt status headers chunks body = ⟨[], none⟩ := by
  have hconfigure : ∀ old, ModelResponseWriter.configureResponseDecoder rt
      ⟨some status, old, none, []⟩ = ⟨some status, old, none, []⟩ :=
    fun old => if_pos (.inr (.inl h))
  have hstart : ModelResponseWriter.new.start rt status headers =
      ⟨some status, headers, none, []⟩ := hconfigure headers
  have hfold : chunks.foldlM (ModelResponseWriter.writeBodyChunk rt)
      (⟨some status, headers, none, []⟩ : ModelResponseWriter) =
        .ok ⟨some status, headers, none, []⟩ := by
    induction chunks with
    | nil => rfl
    | cons chunk chunks ih =>
      have hchunk : ModelResponseWriter.writeBodyChunk rt ⟨some status, headers, none, []⟩ chunk =
          .ok ⟨some status, headers, none, []⟩ := if_pos h
      rw [foldlM_cons, hchunk]
      exact ih
  have hfinish : ModelResponseWriter.finish rt ⟨some status, headers, none, []⟩ status headers
      body = .ok ⟨some status, headers, none, []⟩ := by
    unfold ModelResponseWriter.finish
    rw [hconfigure, if_neg fun hok => by rw [h] at hok; cases hok.1]
    rfl
  rw [modelResponse, hstart, hfold]
  show ModelOutcome.of ((ModelResponseWriter.finish rt _ status headers body).map _) = _
  rw [hfinish]
  rfl

/-- A successful response without events is written as it comes. -/
theorem modelResponse_plain (hstatus : isSuccessfulHttpStatus status = true)
    (hevents : isEventStreamResponse rt headers = false) (chunks : List Bytes) (body : Bytes) :
    modelResponse rt status headers chunks body = ⟨chunks.flatten ++ body, none⟩ := by
  have hconfigure : ∀ old stdout, ModelResponseWriter.configureResponseDecoder rt
      { status := old, headers := headers, sse := none, stdout := stdout } =
        ⟨old, headers, none, stdout⟩ := fun _ _ => if_pos (.inr (.inr hevents))
  have hwrite : ∀ stdout chunk, ModelResponseWriter.writeBodyChunk rt
      ⟨some status, headers, none, stdout⟩ chunk =
        .ok ⟨some status, headers, none, stdout ++ chunk⟩ := fun _ _ =>
    if_neg (by show ¬isSuccessfulHttpStatus status = false; simp [hstatus])
  have hfold : ∀ stdout, chunks.foldlM (ModelResponseWriter.writeBodyChunk rt)
      ⟨some status, headers, none, stdout⟩ =
        .ok ⟨some status, headers, none, stdout ++ chunks.flatten⟩ := by
    induction chunks with
    | nil => exact fun stdout => by rw [flatten_nil, append_nil]; rfl
    | cons chunk chunks ih =>
      intro stdout
      rw [foldlM_cons, hwrite, flatten_cons, ← append_assoc]
      exact ih _
  have hstart : ModelResponseWriter.new.start rt status headers =
      ⟨some status, headers, none, []⟩ := hconfigure _ _
  rw [modelResponse, hstart, hfold]
  show ModelOutcome.of ((ModelResponseWriter.finish rt _ status headers body).map _) = _
  unfold ModelResponseWriter.finish
  rw [hconfigure]
  by_cases hbody : body = []
  · rw [if_neg fun h => h.2 hbody, hbody, append_nil]
    rfl
  · rw [if_pos ⟨hstatus, hbody⟩, hwrite]
    rfl

/-- A response whose chunks end within no line end gives what it gives when its body comes whole. -/
theorem modelResponse_eq_whole (status : ℕ) (headers : List (JsText × JsText)) (chunks : List Bytes)
    (body : Bytes) (huncut : isEventStreamResponse rt headers = true →
      Uncut (Utf8.Decoder.new.texts (bodyParts chunks body))) :
    modelResponse rt status headers chunks body =
      modelResponse rt status headers [] (chunks.flatten ++ body) := by
  cases hstatus : isSuccessfulHttpStatus status with
  | false => rw [modelResponse_refused hstatus, modelResponse_refused hstatus]
  | true =>
    cases hevents : isEventStreamResponse rt headers with
    | false =>
      rw [modelResponse_plain hstatus hevents, modelResponse_plain hstatus hevents]
      rfl
    | true =>
      rw [modelResponse_eq hstatus hevents, modelResponse_eq hstatus hevents,
        joinNormalized_of_uncut (huncut hevents), joinNormalized_of_uncut (uncut_whole _),
        Utf8.Decoder.flatten_texts_new, Utf8.Decoder.flatten_texts_new, flatten_bodyParts,
        flatten_bodyParts]
      rfl

/-- The events of a body as it is. -/
def wholeEvents (chunks : List Bytes) (body : Bytes) : List SseEvent :=
  streamEvents (normalizeSseNewlines (Utf8.textDecode (chunks.flatten ++ body)))

/-- The output of a stream does not depend on its chunks when the events that are read, where a line
end that is cut in two counts twice, are those of the stream and regular, up to the first failure.
It does where one of them fails though the stream goes on. -/
theorem modelStreamHolds_of_readsAs (status : ℕ) (headers : List (JsText × JsText))
    (chunks : List Bytes) (body : Bytes) :
    ((isSuccessfulHttpStatus status = true → isEventStreamResponse rt headers = true →
        ReadsAs rt (readEvents chunks body) (wholeEvents chunks body)) →
      ModelStreamHolds rt status headers chunks body) ∧
    (isSuccessfulHttpStatus status = true → isEventStreamResponse rt headers = true →
      Misreads rt (readEvents chunks body) (wholeEvents chunks body) →
        ¬ModelStreamHolds rt status headers chunks body) := by
  have hevents : isSuccessfulHttpStatus status = true → isEventStreamResponse rt headers = true →
      (modelResponse rt status headers chunks body).output =
        handledOutput rt (readEvents chunks body) := by
    intro hstatus hheaders
    rw [modelResponse_eq hstatus hheaders]
    rfl
  constructor
  · intro h
    refine ⟨fun hstatus => ?_, fun hstatus hheaders => ?_⟩
    · rw [modelResponse_refused hstatus]
      rfl
    · rw [hevents hstatus hheaders]
      exact (h hstatus hheaders).output_eq
  · intro hstatus hheaders hmisread h
    have houtput := h.events hstatus hheaders
    rw [hevents hstatus hheaders] at houtput
    exact hmisread.output_ne houtput

end

/-! ### A line end that is cut in two -/

def deltaText : Text := "\x7b\"delta\":\"x\"\x7d".toList

/-- A runtime that reads the data. -/
def deltaRuntime : JsRuntime Unit where
  parse t :=
    if t = deltaText then .ok (.object .plain [(js "delta", .string (js "x"))])
    else .error (js "Unexpected token")
  string
    | .string t => .ok t
    | _ => .error ()
  toLowerCase t := t

/-- The event in two chunks. -/
def cutChunks : List Bytes :=
  [Utf8.encode "event: response.output_text.delta\r".toList,
    Utf8.encode ("\ndata: ".toList ++ deltaText ++ "\r\n\r\n".toList)]

def streamHeaders : List (JsText × JsText) := [(js "content-type", js "text/event-stream")]

/-- A delta behind a comment, cut within a character, within a field and between two line ends. -/
def deltaChunks : List Bytes :=
  [Utf8.encode ": ".toList ++ [0xC3], 0xA9 :: Utf8.encode "\r\nevent: response.output_te".toList,
    Utf8.encode "xt.delta\r\ndata: \x7b\"del".toList,
    Utf8.encode "ta\":\"x\"\x7d\r\n\r\ndata: [DONE]\r\n".toList, Utf8.encode "\r\n".toList]

theorem uncut_deltaChunks : Uncut (Utf8.Decoder.new.texts (bodyParts deltaChunks [])) := by
  rintro before after hparts hlast hhead
  -- the place of the cut is one of seven
  have hcuts : ∀ n < 7, ((Utf8.Decoder.new.texts deltaChunks).take n).flatten.getLast? =
      some '\r' → ((Utf8.Decoder.new.texts deltaChunks).drop n).flatten.head? ≠ some '\n' := by
    decide +kernel
  have hlength : before.length < 7 := by
    have hall : (Utf8.Decoder.new.texts deltaChunks).length = 6 := by decide +kernel
    have hsum := congrArg List.length hparts
    rw [length_append] at hsum
    exact Nat.lt_succ_of_le ((Nat.le_add_right _ _).trans (hsum.symm.trans hall).le)
  have hparts' : Utf8.Decoder.new.texts deltaChunks = before ++ after := hparts
  have hcut := hcuts before.length hlength
  rw [hparts', take_left, drop_left] at hcut
  exact hcut hlast hhead

theorem modelResponse_eq_whole_delta :
    Uncut (Utf8.Decoder.new.texts (bodyParts deltaChunks [])) ∧
      modelResponse deltaRuntime 200 streamHeaders deltaChunks [] =
        modelResponse deltaRuntime 200 streamHeaders [] (deltaChunks.flatten ++ []) ∧
      (modelResponse deltaRuntime 200 streamHeaders deltaChunks []).stdout = Utf8.encode ['x'] :=
  ⟨uncut_deltaChunks,
    modelResponse_eq_whole 200 streamHeaders deltaChunks [] fun _ => uncut_deltaChunks,
    by decide +kernel⟩

/-- The events of the chunks are those of the stream, and the text is written. -/
theorem modelStreamHolds_deltaChunks : ModelStreamHolds deltaRuntime 200 streamHeaders deltaChunks
    [] := by
  refine (modelStreamHolds_of_readsAs 200 streamHeaders deltaChunks []).1 fun _ _ => ?_
  have hevents :
      ∀ events, events = readEvents deltaChunks [] ∨ events = wholeEvents deltaChunks [] →
      events = [⟨"response.output_text.delta".toList, [deltaText]⟩, ⟨[], ["[DONE]".toList]⟩] := by
    rintro events (rfl | rfl) <;> decide +kernel
  rw [hevents _ (.inl rfl), hevents _ (.inr rfl)]
  refine ⟨rfl, ⟨cons_ne_nil _ _, ?_⟩, .inr ⟨rfl, ⟨cons_ne_nil _ _, ?_⟩, .inr trivial⟩⟩
  · rintro payload - hparse
    have hdelta : deltaRuntime.parse deltaText =
        .ok (.object .plain [(js "delta", .string (js "x"))]) := by
      simp [deltaRuntime]
    obtain rfl := Except.ok.inj (hparse.symm.trans hdelta)
    exact ⟨_, rfl⟩
  · exact fun _ hdone => absurd (by decide +kernel) hdone

/-- The name of the event becomes an event of its own, whose missing data is not JSON. -/
theorem not_modelStreamHolds_cutChunks :
    ¬ModelStreamHolds deltaRuntime 200 streamHeaders cutChunks [] := by
  intro h
  have houtput := h.events (by decide) (by decide +kernel)
  rw [modelResponse_eq (by decide) (by decide +kernel)] at houtput
  have hread : handledOutput deltaRuntime (readEvents cutChunks []) = ([], true) := by
    decide +kernel
  have hstream : expectedOutput deltaRuntime (streamEvents (normalizeSseNewlines
      (Utf8.textDecode (cutChunks.flatten ++ [])))) = (Utf8.encode ['x'], false) := by
    decide +kernel
  rw [hstream] at houtput
  cases hread.symm.trans houtput

end WasmHost

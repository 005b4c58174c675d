import WasmHost.Core.VirtualExecutables
import WasmHost.Lib.Run

/-!
# Captured output

A `CapturedOutput` as the processes of a sandbox see it: through any number of `LimitedCaptureFile`s
that share its state, beside the `write_all` of a virtual executable.

A capture is to fail exactly when more than the limit was written, and otherwise to return what was
written, which is also what went to the sink (`CaptureRun.Faithful`). Two operations that write
nothing can break this: a readiness poll at exactly the limit, and a `set_len`
(`CaptureRun.faithful_iff_careful`).
-/

namespace WasmHost

/-- A position of `std::io::SeekFrom`. -/
inductive SeekFrom
  | start (offset : ℕ)
  | fromEnd (offset : ℤ)
  | current (offset : ℤ)

def outputLimitError (limit : ℕ) : String :=
  "process output exceeded " ++ toString limit ++ " bytes"

/-! ### The files

A `LimitedCaptureFile` is the shared state and a cursor of its own. -/

namespace CapturedOutput

/-- `write_limited`. A writer behind the sink that answers with an error changes the result only. -/
def writeLimited (answer : Except String Unit) (buf : Bytes) (output : CapturedOutput)
    (cursor : ℕ) : Except String ℕ × CapturedOutput × ℕ :=
  if buf = [] then (.ok 0, output, cursor)
  else if output.exceeded then (.error (outputLimitError output.limit), output, cursor)
  else
    let available := output.limit - output.data.length
    if available = 0 then
      (.error (outputLimitError output.limit), { output with exceeded := true }, cursor)
    else
      let writeLen := min available buf.length
      let data := output.data ++ buf.take writeLen
      let result := if output.sink.isSome then answer.map fun _ => writeLen else .ok writeLen
      (result,
        { output with
          data
          exceeded := output.exceeded || decide (writeLen < buf.length)
          sink := output.sink.map fun streamed => streamed ++ buf.take writeLen },
        data.length)

/-- `poll_write_vectored` writes the first buffer that is not empty. -/
def firstCandidate (bufs : List Bytes) : Bytes := (bufs.find? (· ≠ [])).getD []

/-- `start_seek`. A cursor is an `u64`. -/
def startSeek (position : SeekFrom) (output : CapturedOutput) (cursor : ℕ) :
    Except String Unit × ℕ :=
  let next : ℤ :=
    match position with
    | .start offset => offset
    | .fromEnd offset => output.data.length + offset
    | .current offset => cursor + offset
  if next < 0 then (.error "invalid seek before start", cursor)
  else (.ok (), next.toNat % 2 ^ 64)

/-- `poll_read` into a buffer with so much room. -/
def pollRead (remaining : ℕ) (output : CapturedOutput) (cursor : ℕ) : Bytes × ℕ :=
  let start := min cursor output.data.length
  let read := (output.data.drop start).take remaining
  (read, cursor + read.length)

/-- `set_len`. -/
def setLen (newSize : ℕ) (output : CapturedOutput) (cursor : ℕ) :
    Except String Unit × CapturedOutput × ℕ :=
  if output.limit < newSize then (.error "StorageFull", { output with exceeded := true }, cursor)
  else
    (.ok (), { output with
      data := output.data.take newSize ++ List.replicate (newSize - output.data.length) 0 },
      min cursor newSize)

/-- `poll_write_ready`. -/
def pollWriteReady (output : CapturedOutput) : Except String ℕ × CapturedOutput :=
  if output.exceeded then (.error (outputLimitError output.limit), output)
  else
    let remaining := output.limit - output.data.length
    if remaining = 0 then
      (.error (outputLimitError output.limit), { output with exceeded := true })
    else (.ok (min remaining 8192), output)

/-- What a write leaves: all of it where there is room, and nothing once the limit was exceeded.
A write that goes above the limit may leave a part that fits. -/
structure Wrote (output : CapturedOutput) (buf : Bytes) (output' : CapturedOutput) : Prop where
  of_exceeded : output.exceeded = true → output' = output
  of_fits : output.exceeded = false → output.Fits buf → output' = output.append buf
  of_not_fits : output.exceeded = false → output.data.length ≤ output.limit → ¬output.Fits buf →
    output'.exceeded = true ∧ output'.limit = output.limit ∧
      ∃ part, output.Fits part ∧ output'.sink = (output.append part).sink

theorem wrote_writeLimited (answer : Except String Unit) (buf : Bytes) (output : CapturedOutput)
    (cursor : ℕ) : Wrote output buf (output.writeLimited answer buf cursor).2.1 := by
  unfold writeLimited
  refine ⟨fun hexceeded => ?_, fun hopen hfits => ?_, fun hopen hlen hfits => ?_⟩
  · simp only [hexceeded, if_true]
    split <;> rfl
  · unfold Fits at hfits
    split
    next hempty => rw [hempty, append_nil]
    next hne =>
      have hpos := List.length_pos_iff.2 hne
      rw [if_neg (by simp [hopen])]
      simp only
      rw [if_neg (by omega)]
      have hall : min (output.limit - output.data.length) buf.length = buf.length := by omega
      simp [append, hall, hopen]
  · unfold Fits at hfits
    split
    next hempty => exact absurd (by simpa [hempty] using hlen) hfits
    next hne =>
      rw [if_neg (by simp [hopen])]
      simp only
      split
      next hfull => exact ⟨rfl, rfl, [], hlen, by rw [append_nil]⟩
      next hroom =>
        have hshort : min (output.limit - output.data.length) buf.length < buf.length := by omega
        refine ⟨by simp [hshort], rfl, _, ?_, rfl⟩
        unfold Fits
        rw [List.length_take]
        omega

theorem wrote_writeAll (streamName : String) (data : Bytes) (output : CapturedOutput) :
    Wrote output data (output.writeAll streamName data).2 := by
  refine ⟨fun hexceeded => ?_, fun hopen hfits => ?_, fun hopen hlen hfits => ?_⟩
  · simp only [writeAll, hexceeded, if_true]
    split <;> rfl
  · rw [writeAll_of_fits streamName hopen hfits]
  · unfold Fits at hfits
    unfold writeAll
    split
    next hempty => exact absurd (by simpa [hempty] using hlen) hfits
    next hne =>
      rw [if_neg (by simp [hopen]), if_pos (by omega)]
      exact ⟨rfl, rfl, [], hlen, by rw [append_nil]⟩

end CapturedOutput

/-! ### Runs -/

/-- An output, the cursors of its files, and the bytes that were handed to a write so far. -/
structure CaptureRun where
  output : CapturedOutput
  cursors : List ℕ
  attempted : Bytes

/-- What is done with a captured output. -/
inductive CaptureEvent
  | file
  | write (file : ℕ) (answer : Except String Unit) (buf : Bytes)
  | writeVectored (file : ℕ) (answer : Except String Unit) (bufs : List Bytes)
  | writeAll (streamName : String) (data : Bytes)
  | seek (file : ℕ) (position : SeekFrom)
  | read (file remaining : ℕ)
  | pollWriteReady (file : ℕ)
  | setLen (file newSize : ℕ)

namespace CaptureRun

/-- A new output, with a sink or without one. -/
def start (limit : ℕ) (streams : Bool) : CaptureRun :=
  ⟨CapturedOutput.new limit (if streams then some [] else none), [], []⟩

/-- An operation on one of the files that is handed some bytes to write. -/
def onFile (s : CaptureRun) (file : ℕ) (buf : Bytes)
    (operation : CapturedOutput → ℕ → CapturedOutput × ℕ) : CaptureRun :=
  match s.cursors[file]? with
  | none => s
  | some cursor =>
      let (output, cursor) := operation s.output cursor
      ⟨output, s.cursors.set file cursor, s.attempted ++ buf⟩

/-- The run behind an event. -/
def step (s : CaptureRun) : CaptureEvent → CaptureRun
  | .file => { s with cursors := s.cursors ++ [0] }
  | .write file answer buf =>
      s.onFile file buf fun output cursor => (output.writeLimited answer buf cursor).2
  | .writeVectored file answer bufs =>
      let buf := CapturedOutput.firstCandidate bufs
      s.onFile file buf fun output cursor => (output.writeLimited answer buf cursor).2
  | .writeAll streamName data =>
      { s with output := (s.output.writeAll streamName data).2, attempted := s.attempted ++ data }
  | .seek file position =>
      s.onFile file [] fun output cursor => (output, (output.startSeek position cursor).2)
  | .read file remaining =>
      s.onFile file [] fun output cursor => (output, (output.pollRead remaining cursor).2)
  | .pollWriteReady file => s.onFile file [] fun output cursor => (output.pollWriteReady.2, cursor)
  | .setLen file newSize => s.onFile file [] fun output cursor => (output.setLen newSize cursor).2

/-- A capture fails exactly when the writes went above the limit. What is captured otherwise is what
was written, and so is what went to the sink, which never gets more than the limit. -/
structure Faithful (s : CaptureRun) : Prop where
  fails_iff : ∀ streamName, (∃ error, s.output.capture streamName = .error error) ↔
    s.output.limit < s.attempted.length
  captured : ∀ streamName data, s.output.capture streamName = .ok data →
    data = s.attempted ∧ ∀ streamed ∈ s.output.sink, streamed = s.attempted
  sink_le : ∀ streamed ∈ s.output.sink, streamed.length ≤ s.output.limit

/-- As long as no write went above the limit, no file is polled for readiness at the limit, and none
is given another length than it has. -/
def Careful (s : CaptureRun) : CaptureEvent → Prop
  | .pollWriteReady file =>
      file < s.cursors.length → s.output.exceeded = false → s.output.data.length < s.output.limit
  | .setLen file newSize =>
      file < s.cursors.length → s.output.exceeded = false → newSize = s.output.data.length
  | _ => True

variable {s : CaptureRun}

theorem faithful_iff_of_exceeded (h : s.output.exceeded = true) :
    s.Faithful ↔ s.output.limit < s.attempted.length ∧
      ∀ streamed ∈ s.output.sink, streamed.length ≤ s.output.limit := by
  have hcapture : ∀ streamName, s.output.capture streamName =
      .error (CapturedOutput.exceededError streamName s.output.limit) :=
    fun streamName => if_pos h
  constructor
  · intro hfaithful
    exact ⟨(hfaithful.fails_iff "").1 ⟨_, hcapture ""⟩, hfaithful.sink_le⟩
  · rintro ⟨hover, hsink⟩
    refine ⟨fun streamName => iff_of_true ⟨_, hcapture streamName⟩ hover, ?_, hsink⟩
    intro streamName data hdata
    rw [hcapture] at hdata
    cases hdata

theorem faithful_iff_of_open (h : s.output.exceeded = false) :
    s.Faithful ↔ s.output.data = s.attempted ∧ s.attempted.length ≤ s.output.limit ∧
      ∀ streamed ∈ s.output.sink, streamed = s.attempted := by
  have hcapture : ∀ streamName, s.output.capture streamName = .ok s.output.data := by
    intro streamName
    simp [CapturedOutput.capture, h]
  constructor
  · intro hfaithful
    obtain ⟨hdata, hsink⟩ := hfaithful.captured "" _ (hcapture "")
    refine ⟨hdata, not_lt.1 fun hover => ?_, hsink⟩
    obtain ⟨error, herror⟩ := (hfaithful.fails_iff "").2 hover
    rw [hcapture] at herror
    cases herror
  · rintro ⟨hdata, hle, hsink⟩
    refine ⟨fun streamName => iff_of_false ?_ (not_lt.2 hle), fun streamName data hok => ?_, ?_⟩
    · rintro ⟨error, herror⟩
      rw [hcapture] at herror
      cases herror
    · rw [hcapture] at hok
      exact ⟨(Except.ok.inj hok).symm.trans hdata, hsink⟩
    · intro streamed hstreamed
      rw [hsink streamed hstreamed]
      exact hle

section

variable (h : s.Faithful)
include h

/-- The limit bounds what goes to the sink, and a write that goes above it makes the capture
fail. -/
theorem Faithful.write {buf : Bytes} {output : CapturedOutput}
    (hwrote : CapturedOutput.Wrote s.output buf output) (cursors : List ℕ) :
    Faithful ⟨output, cursors, s.attempted ++ buf⟩ := by
  cases hexceeded : s.output.exceeded with
  | true =>
    obtain ⟨hover, hsink⟩ := (faithful_iff_of_exceeded hexceeded).1 h
    obtain rfl := hwrote.of_exceeded hexceeded
    refine (faithful_iff_of_exceeded (by exact hexceeded)).2 ⟨?_, hsink⟩
    simp only [List.length_append]
    omega
  | false =>
    obtain ⟨hdata, hle, hsink⟩ := (faithful_iff_of_open hexceeded).1 h
    rw [← hdata] at hle
    by_cases hfits : s.output.Fits buf
    · obtain rfl := hwrote.of_fits hexceeded hfits
      refine (faithful_iff_of_open (by exact hexceeded)).2 ⟨?_, ?_, ?_⟩
      · simp [CapturedOutput.append, hdata]
      · rw [List.length_append, ← hdata]
        exact hfits
      · intro streamed hstreamed
        obtain ⟨before, hbefore, rfl⟩ := Option.map_eq_some_iff.1 hstreamed
        rw [hsink before hbefore]
    · obtain ⟨hover, hlimit, part, hpart, hstream⟩ := hwrote.of_not_fits hexceeded hle hfits
      refine (faithful_iff_of_exceeded hover).2 ⟨?_, fun streamed hstreamed => ?_⟩
      · rw [hlimit, List.length_append, ← hdata]
        exact not_le.1 hfits
      · rw [hlimit]
        simp only [hstream] at hstreamed
        obtain ⟨before, hbefore, rfl⟩ := Option.map_eq_some_iff.1 hstreamed
        rw [hsink before hbefore, List.length_append, ← hdata]
        exact hpart

/-- The cursors have no part in it. -/
theorem Faithful.cursors (cursors : List ℕ) :
    Faithful ⟨s.output, cursors, s.attempted⟩ := ⟨h.fails_iff, h.captured, h.sink_le⟩

theorem faithful_onFile_write (file : ℕ) (answer : Except String Unit) (buf : Bytes) :
    (s.onFile file buf fun output cursor =>
      (output.writeLimited answer buf cursor).2).Faithful := by
  unfold onFile
  split
  · exact h
  · exact h.write (CapturedOutput.wrote_writeLimited answer buf _ _) _

/-- An operation that only moves the cursor. -/
theorem faithful_onFile_cursor (file : ℕ) (move : CapturedOutput → ℕ → ℕ) :
    (s.onFile file [] fun output cursor => (output, move output cursor)).Faithful := by
  unfold onFile
  split
  · exact h
  · rw [List.append_nil]
    exact h.cursors _

theorem faithful_pollWriteReady_iff (file : ℕ) :
    (s.step (.pollWriteReady file)).Faithful ↔ s.Careful (.pollWriteReady file) := by
  simp only [step, onFile, Careful]
  cases hcursor : s.cursors[file]? with
  | none =>
    have hfile := List.getElem?_eq_none_iff.1 hcursor
    exact iff_of_true h fun hlt => absurd hlt (not_lt.2 hfile)
  | some =>
    obtain ⟨hfile, -⟩ := List.getElem?_eq_some_iff.1 hcursor
    simp only [List.append_nil, hfile, true_implies]
    unfold CapturedOutput.pollWriteReady
    cases hexceeded : s.output.exceeded with
    | true =>
      simp only [if_true]
      exact iff_of_true (h.cursors _) fun h => by cases h
    | false =>
      obtain ⟨hdata, hle, hsink⟩ := (faithful_iff_of_open hexceeded).1 h
      simp only [Bool.false_eq_true, if_false, true_implies]
      split
      next hfull =>
        refine iff_of_false (fun hfaithful => ?_) (by omega)
        have hover := ((faithful_iff_of_exceeded rfl).1 hfaithful).1
        exact absurd hle (not_le.2 hover)
      next hroom => exact iff_of_true (h.cursors _) (by omega)

theorem faithful_setLen_iff (file newSize : ℕ) :
    (s.step (.setLen file newSize)).Faithful ↔ s.Careful (.setLen file newSize) := by
  simp only [step, onFile, Careful]
  cases hcursor : s.cursors[file]? with
  | none =>
    have hfile := List.getElem?_eq_none_iff.1 hcursor
    exact iff_of_true h fun hlt => absurd hlt (not_lt.2 hfile)
  | some =>
    obtain ⟨hfile, -⟩ := List.getElem?_eq_some_iff.1 hcursor
    simp only [List.append_nil, hfile, true_implies]
    unfold CapturedOutput.setLen
    cases hexceeded : s.output.exceeded with
    | true =>
      obtain ⟨hover, hsink⟩ := (faithful_iff_of_exceeded hexceeded).1 h
      refine iff_of_true ?_ fun h => by cases h
      split <;> exact (faithful_iff_of_exceeded (by rfl)).2 ⟨hover, hsink⟩
    | false =>
      obtain ⟨hdata, hle, hsink⟩ := (faithful_iff_of_open hexceeded).1 h
      simp only [true_implies]
      split
      next hlarge =>
        refine iff_of_false (fun hfaithful => ?_) (by rw [hdata]; omega)
        have hover := ((faithful_iff_of_exceeded rfl).1 hfaithful).1
        exact absurd hle (not_le.2 hover)
      next hsmall =>
        rw [faithful_iff_of_open (by rfl)]
        constructor
        · rintro ⟨hresized, -⟩
          rw [← hdata] at hresized
          have hlength := congrArg List.length hresized
          simp at hlength
          omega
        · rintro rfl
          simpa [hdata, hle] using hsink

/-- An event keeps a faithful output faithful exactly when it is careful. -/
theorem faithful_step_iff (event : CaptureEvent) :
    (s.step event).Faithful ↔ s.Careful event := by
  cases event with
  | file => exact iff_of_true (h.cursors _) trivial
  | write file answer buf => exact iff_of_true (faithful_onFile_write h file answer buf) trivial
  | writeVectored file answer bufs =>
    exact iff_of_true (faithful_onFile_write h file answer _) trivial
  | writeAll streamName data =>
    exact iff_of_true (h.write (CapturedOutput.wrote_writeAll streamName data _) _) trivial
  | seek file position =>
    refine iff_of_true ?_ trivial
    exact faithful_onFile_cursor h file fun output cursor => (output.startSeek position cursor).2
  | read file remaining =>
    refine iff_of_true ?_ trivial
    exact faithful_onFile_cursor h file fun output cursor => (output.pollRead remaining cursor).2
  | pollWriteReady file => exact faithful_pollWriteReady_iff h file
  | setLen file newSize => exact faithful_setLen_iff h file newSize

end

theorem faithful_start (limit : ℕ) (streams : Bool) : (start limit streams).Faithful := by
  refine (faithful_iff_of_open rfl).2 ⟨rfl, Nat.zero_le _, ?_⟩
  cases streams <;> simp [start, CapturedOutput.new]

/-- The output is faithful in every state of a run exactly when every event is careful. -/
theorem faithful_iff_careful (limit : ℕ) (streams : Bool) (events : List CaptureEvent) :
    Always step Faithful (start limit streams) events ↔
      Along step Careful (start limit streams) events :=
  @always_iff _ _ step (fun _ => True) Faithful Careful (fun _ _ _ => trivial)
    (fun _ event _ h => faithful_step_iff h event) _ trivial (faithful_start limit streams) events

/-- Four bytes are within a limit of four, until the file is asked whether it can take more. -/
theorem not_faithful_polled :
    ¬Always step Faithful (start 4 false) [.file, .write 0 (.ok ()) [1, 2, 3, 4],
      .pollWriteReady 0] := by
  intro h
  have hover := (h.last.fails_iff "stdout").1 ⟨_, rfl⟩
  exact absurd hover (by decide)

end CaptureRun

end WasmHost

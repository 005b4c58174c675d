import WasmHost.Core.LauncherRoundTrip

/-!
# Virtual executables

A virtual executable is answered by a responder on the host: it may write chunks of output while
it runs and ends with one response. `run_virtual_command` starts it for the host and
`invoke_guest` for the launcher, and both wait in `invoke_blocking_with_output`, the one with a
place for the chunks and the other without.
-/

namespace WasmHost

/-- `VirtualProcessPayload`, as the responder decodes it. -/
structure VirtualProcessPayload where
  handlerToken : ℕ
  executablePath : Text
  argv : List Text
  cwd : Text
  env : OrdMap Text Text
  stdin : Bytes

/-- `VirtualProcessResponseEvent`. -/
inductive VirtualProcessResponseEvent
  | stdout (data : Bytes)
  | stderr (data : Bytes)
  | complete (response : Bytes)
  deriving DecidableEq

/-! ### Captured output -/

/-- `CapturedOutputState`. A sink is kept as what was streamed to it. -/
structure CapturedOutput where
  data : Bytes
  limit : ℕ
  exceeded : Bool
  sink : Option Bytes
  deriving DecidableEq

namespace CapturedOutput

/-- `CapturedOutput::new`. -/
def new (limit : ℕ) (sink : Option Bytes) : CapturedOutput := ⟨[], limit, false, sink⟩

def exceededError (streamName : String) (limit : ℕ) : String :=
  "process " ++ streamName ++ " output exceeded " ++ toString limit ++ " bytes"

/-- `write_all`. -/
def writeAll (streamName : String) (data : Bytes) (output : CapturedOutput) :
    Except String Unit × CapturedOutput :=
  if data = [] then (.ok (), output)
  else if output.exceeded then (.error (exceededError streamName output.limit), output)
  else if output.limit < output.data.length + data.length then
    (.error (exceededError streamName output.limit), { output with exceeded := true })
  else
    (.ok (), { output with
      data := output.data ++ data
      sink := output.sink.map fun streamed => streamed ++ data })

/-- `capture`. -/
def capture (streamName : String) (output : CapturedOutput) : Except String Bytes :=
  if output.exceeded then .error (exceededError streamName output.limit) else .ok output.data

end CapturedOutput

/-- `VirtualProcessOutput`. -/
structure VirtualProcessOutput where
  stdout : CapturedOutput
  stderr : CapturedOutput
  deriving DecidableEq

/-! ### The bridge -/

/-- What one round finds in which the request is offered to the dispatcher. -/
inductive SendTurn
  | cancelled
  | expired
  | full
  | closed
  | sent
  deriving DecidableEq

/-- What one round finds in which a response is waited for. -/
inductive BridgeTurn
  | cancelled
  | expired
  | event (event : VirtualProcessResponseEvent)
  | quiet
  | disconnected
  deriving DecidableEq

/-- The rounds of one invocation. -/
structure BridgeRun where
  sends : List SendTurn
  turns : List BridgeTurn

def cancelledError : String := "process cancelled"

def wallTimeError : String := "virtual executable exceeded wall time limit"

/-- The loop over `try_send`; `none` while the queue stays full. -/
def sendRequest : List SendTurn → Option (Except String Unit)
  | [] => none
  | .cancelled :: _ => some (.error cancelledError)
  | .expired :: _ => some (.error wallTimeError)
  | .full :: rest => sendRequest rest
  | .closed :: _ => some (.error "virtual executable dispatcher is closed")
  | .sent :: _ => some (.ok ())

/-- The loop over `recv_timeout`; `none` while there is no response. -/
def receiveResponse : List BridgeTurn → Option VirtualProcessOutput →
    Option (Except String Bytes × Option VirtualProcessOutput)
  | [], _ => none
  | .cancelled :: _, output => some (.error cancelledError, output)
  | .expired :: _, output => some (.error wallTimeError, output)
  | .event (.stdout data) :: rest, output =>
    match output with
    | none => receiveResponse rest none
    | some output =>
      match output.stdout.writeAll "stdout" data with
      | (.error error, stdout) => some (.error error, some { output with stdout })
      | (.ok (), stdout) => receiveResponse rest (some { output with stdout })
  | .event (.stderr data) :: rest, output =>
    match output with
    | none => receiveResponse rest none
    | some output =>
      match output.stderr.writeAll "stderr" data with
      | (.error error, stderr) => some (.error error, some { output with stderr })
      | (.ok (), stderr) => receiveResponse rest (some { output with stderr })
  | .event (.complete response) :: _, output => some (.ok response, output)
  | .quiet :: rest, output => receiveResponse rest output
  | .disconnected :: _, output =>
    some (.error "virtual executable response channel closed", output)

/-- `invoke_blocking_with_output`. -/
def invokeBlockingWithOutput (run : BridgeRun) (output : Option VirtualProcessOutput) :
    Option (Except String Bytes × Option VirtualProcessOutput) :=
  match sendRequest run.sends with
  | none => none
  | some (.error error) => some (.error error, output)
  | some (.ok ()) => receiveResponse run.turns output

/-- `invoke_blocking`. -/
def invokeBlocking (run : BridgeRun) : Option (Except String Bytes) :=
  (invokeBlockingWithOutput run none).map Prod.fst

/-! ### Both routes -/

/-- `VirtualExecutableTarget` and `ResolvedVirtualExecutable`. -/
structure VirtualExecutableTarget where
  token : ℕ
  path : Text
  deriving DecidableEq

/-- `normalize_path`, as the components below the root. -/
def normalizePath (path : Text) : Except String (List Text) :=
  if '\x00' ∈ path then .error "sandbox paths cannot contain NUL bytes"
  else if path.head? ≠ some '/' then .error "sandbox paths must be absolute"
  else
    match walkSegments [] (path.splitOn '/') with
    | none => .error "sandbox paths cannot escape root"
    | some components => .ok components

/-- `CompletedProcess`. -/
structure CompletedProcess where
  args : List Text
  returncode : BitVec 32
  stdout : Bytes
  stderr : Bytes
  deriving DecidableEq

/-- The responder of a bridge: the rounds that a request meets. -/
abbrev Responder := VirtualProcessPayload → BridgeRun

/-- The part of `run_virtual_command` behind the invocation. -/
def finishVirtualCommand (args : List Text) (response : Bytes) (output : VirtualProcessOutput) :
    Except String CompletedProcess :=
  match decodeVirtualProcessResponse response with
  | .error _ => .error "invalid virtual executable response"
  | .ok payload => do
    let (written, stdout) := output.stdout.writeAll "stdout" payload.stdout
    written
    let (written, stderr) := output.stderr.writeAll "stderr" payload.stderr
    written
    let capturedStdout ← stdout.capture "stdout"
    let capturedStderr ← stderr.capture "stderr"
    return ⟨args, payload.returncode, capturedStdout, capturedStderr⟩

/-- `run_virtual_command`; `none` while there is no response. -/
def runVirtualCommand (respond : Responder) (args : List Text) (input : Bytes)
    (env : OrdMap Text Text) (cwd : Text) (target : VirtualExecutableTarget)
    (stdout stderr : CapturedOutput) : Option (Except String CompletedProcess) :=
  let request : VirtualProcessPayload := ⟨target.token, target.path, args, cwd, env, input⟩
  match invokeBlockingWithOutput (respond request) (some ⟨stdout, stderr⟩) with
  | none => none
  | some (.error error, _) => some (.error error)
  | some (.ok response, output) =>
    some (finishVirtualCommand args response (output.getD ⟨stdout, stderr⟩))

/-- `resolve_path`, for the paths that are registered. -/
abbrev VirtualExecutableRegistry := OrdMap (List Text) VirtualExecutableTarget

/-- `virtual_process_error_response`. -/
def virtualProcessErrorResponse (message : String) : Bytes :=
  encodeVirtualProcessResponse ⟨126, [], encodeText (message.toList ++ ['\n'])⟩

/-- `invoke_guest_result`; `none` while there is no response. -/
def invokeGuestResult (registry : VirtualExecutableRegistry) (respond : Responder)
    (payload : Bytes) : Option (Except String Bytes) :=
  match parseGuestVirtualProcessPayload payload with
  | .error _ => some (.error "invalid virtual executable request")
  | .ok guest =>
    match normalizePath guest.executablePath with
    | .error error => some (.error error)
    | .ok path =>
      match registry.get path with
      | none => some (.error ("virtual executable is not registered: " ++
          String.ofList ('/' :: List.intercalate ['/'] path)))
      | some target =>
        invokeBlocking (respond ⟨target.token, target.path, guest.argv, guest.cwd, guest.env,
          guest.stdin⟩)

/-- `invoke_guest`. -/
def invokeGuest (registry : VirtualExecutableRegistry) (respond : Responder) (payload : Bytes) :
    Option Bytes :=
  (invokeGuestResult registry respond payload).map fun result =>
    match result with
    | .ok response => response
    | .error error => virtualProcessErrorResponse error

/-! ### What a responder sends -/

/-- A call of `write_stdout` or `write_stderr`. -/
inductive VirtualProcessWrite
  | stdout (data : Bytes)
  | stderr (data : Bytes)
  deriving DecidableEq

namespace VirtualProcessWrite

/-- The event of a write. -/
def event : VirtualProcessWrite → VirtualProcessResponseEvent
  | .stdout data => .stdout data
  | .stderr data => .stderr data

/-- What a write gives to stdout. -/
def toStdout : VirtualProcessWrite → Bytes
  | .stdout data => data
  | .stderr _ => []

/-- What a write gives to stderr. -/
def toStderr : VirtualProcessWrite → Bytes
  | .stdout _ => []
  | .stderr data => data

end VirtualProcessWrite

/-- The chunks of one stream in order. -/
def writtenStdout (writes : List VirtualProcessWrite) : Bytes :=
  writes.flatMap VirtualProcessWrite.toStdout

def writtenStderr (writes : List VirtualProcessWrite) : Bytes :=
  writes.flatMap VirtualProcessWrite.toStderr

/-- The call that ends a response: `respond_process` or `respond`. -/
inductive FinalAnswer
  | respondProcess (payload : VirtualProcessResponsePayload)
  | respond (response : Bytes)

namespace FinalAnswer

/-- The bytes of an answer. -/
def response : FinalAnswer → Bytes
  | .respondProcess payload => encodeVirtualProcessResponse payload
  | .respond response => response

/-- The payload that an answer is made with, or that its bytes stand for. -/
def Carries (payload : VirtualProcessResponsePayload) : FinalAnswer → Prop
  | .respondProcess given => given = payload
  | .respond response => decodeVirtualProcessResponse response = .ok payload

/-- The outputs fit behind their lengths, which `respond_process` writes `as u32`. -/
def Encodable : FinalAnswer → Prop
  | .respondProcess payload => payload.stdout.length < 2 ^ 32 ∧ payload.stderr.length < 2 ^ 32
  | .respond _ => True

end FinalAnswer

/-- The rounds with these writes and this answer, neither cancelled nor out of time. Between them
are rounds in which nothing arrives. -/
structure Responds (run : BridgeRun) (writes : List VirtualProcessWrite) (answer : FinalAnswer) :
    Prop where
  sent : sendRequest run.sends = some (.ok ())
  events : (run.turns.filter fun turn => turn ≠ .quiet) =
    writes.map (fun write => .event write.event) ++ [.event (.complete answer.response)]

/-! ### One write -/

namespace CapturedOutput

variable {output : CapturedOutput} {data : Bytes}

/-- There is room for the data. -/
def Fits (output : CapturedOutput) (data : Bytes) : Prop :=
  output.data.length + data.length ≤ output.limit

/-- The room that is left can be checked. -/
instance (output : CapturedOutput) (data : Bytes) : Decidable (output.Fits data) :=
  inferInstanceAs (Decidable (_ ≤ _))

/-- Takes what is within the limit. -/
def append (output : CapturedOutput) (data : Bytes) : CapturedOutput :=
  { output with
    data := output.data ++ data
    sink := output.sink.map fun streamed => streamed ++ data }

@[simp]
theorem append_nil (output : CapturedOutput) : output.append [] = output := by
  obtain ⟨_, _, _, sink⟩ := output
  cases sink <;> simp [append]

theorem append_append (output : CapturedOutput) (first second : Bytes) :
    (output.append first).append second = output.append (first ++ second) := by
  simp [append, Option.map_map, Function.comp_def]

theorem fits_append_iff (output : CapturedOutput) (first second : Bytes) :
    (output.append first).Fits second ↔ output.Fits (first ++ second) := by
  simp [Fits, append, Nat.add_assoc]

theorem Fits.left {first second : Bytes} (h : output.Fits (first ++ second)) :
    output.Fits first := by
  unfold Fits at *
  rw [List.length_append] at h
  omega

theorem Fits.length_append_le (h : output.Fits data) :
    (output.append data).data.length ≤ (output.append data).limit := by
  simpa [append, Fits] using h

theorem writeAll_of_fits (streamName : String) (hopen : output.exceeded = false)
    (hfits : output.Fits data) :
    output.writeAll streamName data = (.ok (), output.append data) := by
  unfold writeAll
  split
  next hempty => rw [hempty, append_nil]
  unfold Fits at hfits
  rw [if_neg (by simp [hopen]), if_neg (by omega)]
  rfl

/-- A write that does not fit fails, and leaves the output without it. -/
theorem writeAll_of_not_fits (streamName : String) (hlimit : output.data.length ≤ output.limit)
    (hfits : ¬output.Fits data) :
    ∃ error output', output.writeAll streamName data = (.error error, output') := by
  have hdata : data ≠ [] := by
    rintro rfl
    exact hfits hlimit
  unfold writeAll
  unfold Fits at hfits
  rw [if_neg hdata]
  split
  · exact ⟨_, _, rfl⟩
  · rw [if_pos (by omega)]
    exact ⟨_, _, rfl⟩

end CapturedOutput

/-! ### The bridge loop -/

/-- Rounds in which nothing arrives change nothing. -/
theorem receiveResponse_filter (turns : List BridgeTurn) (output : Option VirtualProcessOutput) :
    receiveResponse (turns.filter fun turn => turn ≠ .quiet) output =
      receiveResponse turns output := by
  induction turns generalizing output with
  | nil => rfl
  | cons turn rest ih =>
    cases turn with
    | quiet => simpa [receiveResponse] using ih output
    | cancelled | expired | disconnected => rfl
    | event event =>
      have hkeep : (BridgeTurn.event event :: rest).filter (fun turn => turn ≠ .quiet) =
          .event event :: rest.filter fun turn => turn ≠ .quiet := rfl
      rw [hkeep]
      cases event with
      | complete => rfl
      | stdout | stderr =>
        cases output with
        | none => simpa [receiveResponse] using ih none
        | some =>
          simp only [receiveResponse]
          split
          · rfl
          · exact ih _

/-- The rounds of a responder, without the quiet ones. -/
def responseTurns (writes : List VirtualProcessWrite) (response : Bytes) : List BridgeTurn :=
  writes.map (fun write => .event write.event) ++ [.event (.complete response)]

/-- Without a place for them the chunks are dropped. -/
theorem receiveResponse_none (writes : List VirtualProcessWrite) (response : Bytes) :
    receiveResponse (responseTurns writes response) none = some (.ok response, none) := by
  induction writes with
  | nil => rfl
  | cons write writes ih => cases write <;> exact ih

/-- The outputs can take what is written. -/
structure VirtualProcessOutput.Takes (output : VirtualProcessOutput) (stdout stderr : Bytes) :
    Prop where
  stdout : output.stdout.Fits stdout
  stderr : output.stderr.Fits stderr

/-- Nothing was too much yet. -/
structure VirtualProcessOutput.Open (output : VirtualProcessOutput) : Prop where
  stdout : output.stdout.exceeded = false ∧ output.stdout.data.length ≤ output.stdout.limit
  stderr : output.stderr.exceeded = false ∧ output.stderr.data.length ≤ output.stderr.limit

variable {writes : List VirtualProcessWrite} {output : VirtualProcessOutput} {answer : FinalAnswer}
    {payload : VirtualProcessResponsePayload} {args : List Text} {respond : Responder}
    {target : VirtualExecutableTarget} {env : OrdMap Text Text}
    {registry : VirtualExecutableRegistry} {sandbox : Sandbox}

theorem receiveResponse_of_takes {response : Bytes} (hopen : output.Open)
    (htakes : output.Takes (writtenStdout writes) (writtenStderr writes)) :
    receiveResponse (responseTurns writes response) (some output) =
      some (.ok response, some ⟨output.stdout.append (writtenStdout writes),
        output.stderr.append (writtenStderr writes)⟩) := by
  induction writes generalizing output with
  | nil =>
    show some _ = some _
    simp [writtenStdout, writtenStderr]
  | cons write writes ih =>
    cases write with
    | stdout data =>
      have hstdout : output.stdout.Fits (data ++ writtenStdout writes) := htakes.stdout
      have hwrite := CapturedOutput.writeAll_of_fits "stdout" hopen.stdout.1 hstdout.left
      have hnext := @ih { output with stdout := output.stdout.append data }
        ⟨⟨hopen.stdout.1, hstdout.left.length_append_le⟩, hopen.stderr⟩
        ⟨(CapturedOutput.fits_append_iff _ _ _).2 hstdout, htakes.stderr⟩
      show receiveResponse (.event (.stdout data) :: responseTurns writes response) _ = _
      rw [receiveResponse]
      simp only [hwrite]
      rw [hnext, CapturedOutput.append_append]
      rfl
    | stderr data =>
      have hstderr : output.stderr.Fits (data ++ writtenStderr writes) := htakes.stderr
      have hwrite := CapturedOutput.writeAll_of_fits "stderr" hopen.stderr.1 hstderr.left
      have hnext := @ih { output with stderr := output.stderr.append data }
        ⟨hopen.stdout, ⟨hopen.stderr.1, hstderr.left.length_append_le⟩⟩
        ⟨htakes.stdout, (CapturedOutput.fits_append_iff _ _ _).2 hstderr⟩
      show receiveResponse (.event (.stderr data) :: responseTurns writes response) _ = _
      rw [receiveResponse]
      simp only [hwrite]
      rw [hnext, CapturedOutput.append_append]
      rfl

/-- Chunks that do not fit end the invocation. -/
theorem receiveResponse_of_not_takes (response : Bytes) (hopen : output.Open)
    (htakes : ¬output.Takes (writtenStdout writes) (writtenStderr writes)) :
    ∃ error output', receiveResponse (responseTurns writes response) (some output) =
      some (.error error, output') := by
  induction writes generalizing output with
  | nil => exact absurd ⟨hopen.stdout.2, hopen.stderr.2⟩ htakes
  | cons write writes ih =>
    cases write with
    | stdout data =>
      show ∃ error output', receiveResponse (.event (.stdout data) ::
        responseTurns writes response) _ = _
      rw [receiveResponse]
      by_cases hfits : output.stdout.Fits data
      · have hwrite := CapturedOutput.writeAll_of_fits "stdout" hopen.stdout.1 hfits
        simp only [hwrite]
        refine ih ⟨⟨hopen.stdout.1, hfits.length_append_le⟩, hopen.stderr⟩
          fun h => htakes ⟨?_, h.stderr⟩
        exact (CapturedOutput.fits_append_iff _ _ _).1 h.stdout
      · obtain ⟨error, output', hwrite⟩ :=
          CapturedOutput.writeAll_of_not_fits "stdout" hopen.stdout.2 hfits
        simp only [hwrite]
        exact ⟨_, _, rfl⟩
    | stderr data =>
      show ∃ error output', receiveResponse (.event (.stderr data) ::
        responseTurns writes response) _ = _
      rw [receiveResponse]
      by_cases hfits : output.stderr.Fits data
      · have hwrite := CapturedOutput.writeAll_of_fits "stderr" hopen.stderr.1 hfits
        simp only [hwrite]
        refine ih ⟨hopen.stdout, ⟨hopen.stderr.1, hfits.length_append_le⟩⟩
          fun h => htakes ⟨h.stdout, ?_⟩
        exact (CapturedOutput.fits_append_iff _ _ _).1 h.stderr
      · obtain ⟨error, output', hwrite⟩ :=
          CapturedOutput.writeAll_of_not_fits "stderr" hopen.stderr.2 hfits
        simp only [hwrite]
        exact ⟨_, _, rfl⟩

/-! ### The routes -/

/-- An answer is decoded to its payload unless a length does not fit. -/
theorem FinalAnswer.decode_iff (h : answer.Carries payload) :
    decodeVirtualProcessResponse answer.response = .ok payload ↔ answer.Encodable := by
  cases answer with
  | respond => exact iff_of_true h trivial
  | respondProcess given =>
    obtain rfl : given = payload := h
    show decodeVirtualProcessResponse (encodeVirtualProcessResponse given) = .ok given ↔ _
    constructor
    · intro hdecode
      -- what is decoded is no longer than the lengths say
      unfold decodeVirtualProcessResponse at hdecode
      split at hdecode
      · exact absurd hdecode (by simp)
      · simp only at hdecode
        split at hdecode
        · exact absurd hdecode (by simp)
        · have hpayload := Except.ok.inj hdecode
          have hlt : ∀ bytes : Bytes, bytes.length ≤ 4 → ofLittleEndian bytes < 2 ^ 32 := by
            intro bytes hbytes
            have hlt := ofLittleEndian_lt bytes
            have hle : 256 ^ bytes.length ≤ 256 ^ 4 := Nat.pow_le_pow_right (by decide) hbytes
            omega
          have hout := congrArg (fun p => p.stdout.length) hpayload
          have herr := congrArg (fun p => p.stderr.length) hpayload
          simp only [List.length_take] at hout herr
          have houtLt := hlt ((List.drop 8 (encodeVirtualProcessResponse given)).take 4)
            (List.length_take_le _ _)
          have herrLt := hlt ((List.drop 12 (encodeVirtualProcessResponse given)).take 4)
            (List.length_take_le _ _)
          exact ⟨by omega, by omega⟩
    · rintro ⟨hout, herr⟩
      have := decodeVirtualProcessResponse_encode hout herr []
      rwa [List.append_nil] at this

/-- The end of a direct run, from outputs that nothing was too much for. -/
theorem finishVirtualCommand_eq_ok_iff {response : Bytes} (hopen : output.Open) :
    finishVirtualCommand args response output =
        .ok ⟨args, payload.returncode, output.stdout.data ++ payload.stdout,
          output.stderr.data ++ payload.stderr⟩ ↔
      decodeVirtualProcessResponse response = .ok payload ∧
        output.Takes payload.stdout payload.stderr := by
  unfold finishVirtualCommand
  cases hdecode : decodeVirtualProcessResponse response with
  | error => simp
  | ok decoded =>
    simp only
    by_cases hstdout : output.stdout.Fits decoded.stdout
    · rw [CapturedOutput.writeAll_of_fits "stdout" hopen.stdout.1 hstdout]
      by_cases hstderr : output.stderr.Fits decoded.stderr
      · rw [CapturedOutput.writeAll_of_fits "stderr" hopen.stderr.1 hstderr]
        have hout : (output.stdout.append decoded.stdout).capture "stdout" =
            .ok (output.stdout.data ++ decoded.stdout) := by
          simp [CapturedOutput.capture, CapturedOutput.append, hopen.stdout.1]
        have herr : (output.stderr.append decoded.stderr).capture "stderr" =
            .ok (output.stderr.data ++ decoded.stderr) := by
          simp [CapturedOutput.capture, CapturedOutput.append, hopen.stderr.1]
        simp only [hout, herr]
        show Except.ok _ = Except.ok _ ↔ _
        rw [Except.ok.injEq, Except.ok.injEq, CompletedProcess.mk.injEq]
        obtain ⟨code, out, err⟩ := decoded
        obtain ⟨code', out', err'⟩ := payload
        simp only [List.append_cancel_left_eq, true_and, VirtualProcessResponsePayload.mk.injEq]
        constructor
        · rintro ⟨rfl, rfl, rfl⟩
          exact ⟨⟨rfl, rfl, rfl⟩, hstdout, hstderr⟩
        · exact fun h => h.1
      · obtain ⟨error, output', hwrite⟩ :=
          CapturedOutput.writeAll_of_not_fits "stderr" hopen.stderr.2 hstderr
        rw [hwrite]
        refine iff_of_false (fun h => by cases h) ?_
        rintro ⟨heq, htakes⟩
        exact hstderr (Except.ok.inj heq ▸ htakes.stderr)
    · obtain ⟨error, output', hwrite⟩ :=
        CapturedOutput.writeAll_of_not_fits "stdout" hopen.stdout.2 hstdout
      rw [hwrite]
      refine iff_of_false (fun h => by cases h) ?_
      rintro ⟨heq, htakes⟩
      exact hstdout (Except.ok.inj heq ▸ htakes.stdout)

theorem invokeBlockingWithOutput_of_responds {run : BridgeRun} (h : Responds run writes answer)
    (output : Option VirtualProcessOutput) :
    invokeBlockingWithOutput run output =
      receiveResponse (responseTurns writes answer.response) output := by
  rw [invokeBlockingWithOutput, h.sent]
  simp only
  rw [← receiveResponse_filter, h.events]
  rfl

/-- The output of a command that the host starts arrives just when it fits. -/
theorem runVirtualCommand_delivers_iff {input : Bytes}
    {cwd : Text}
    (hresponds : Responds (respond ⟨target.token, target.path, args, cwd, env, input⟩) writes
      answer)
    (hcarries : answer.Carries payload) (outLimit errLimit : ℕ) (outSink errSink : Option Bytes) :
    runVirtualCommand respond args input env cwd target (.new outLimit outSink)
        (.new errLimit errSink) =
      some (.ok ⟨args, payload.returncode, writtenStdout writes ++ payload.stdout,
        writtenStderr writes ++ payload.stderr⟩) ↔
      answer.Encodable ∧ (writtenStdout writes ++ payload.stdout).length ≤ outLimit ∧
        (writtenStderr writes ++ payload.stderr).length ≤ errLimit := by
  let output : VirtualProcessOutput := ⟨.new outLimit outSink, .new errLimit errSink⟩
  have hopen : output.Open := ⟨⟨rfl, Nat.zero_le _⟩, ⟨rfl, Nat.zero_le _⟩⟩
  have hfits : ∀ (limit : ℕ) (sink : Option Bytes) (data : Bytes),
      (CapturedOutput.new limit sink).Fits data ↔ data.length ≤ limit := by
    intro limit sink data
    simp [CapturedOutput.Fits, CapturedOutput.new]
  rw [runVirtualCommand, invokeBlockingWithOutput_of_responds hresponds]
  by_cases htakes : output.Takes (writtenStdout writes) (writtenStderr writes)
  · rw [receiveResponse_of_takes hopen htakes]
    simp only [Option.getD_some, Option.some.injEq]
    let written : VirtualProcessOutput := ⟨output.stdout.append (writtenStdout writes),
      output.stderr.append (writtenStderr writes)⟩
    have hwritten : written.Open := ⟨⟨rfl, htakes.stdout.length_append_le⟩,
      ⟨rfl, htakes.stderr.length_append_le⟩⟩
    have hfinish := @finishVirtualCommand_eq_ok_iff written payload args answer.response hwritten
    have hrest : written.Takes payload.stdout payload.stderr ↔
        (writtenStdout writes ++ payload.stdout).length ≤ outLimit ∧
          (writtenStderr writes ++ payload.stderr).length ≤ errLimit := by
      rw [← hfits outLimit outSink, ← hfits errLimit errSink]
      exact ⟨fun h => ⟨(CapturedOutput.fits_append_iff _ _ _).1 h.stdout,
          (CapturedOutput.fits_append_iff _ _ _).1 h.stderr⟩,
        fun h => ⟨(CapturedOutput.fits_append_iff _ _ _).2 h.1,
          (CapturedOutput.fits_append_iff _ _ _).2 h.2⟩⟩
    rw [← hrest, ← answer.decode_iff hcarries]
    exact hfinish
  · obtain ⟨error, output', hreceive⟩ :=
      receiveResponse_of_not_takes answer.response hopen htakes
    rw [hreceive]
    refine iff_of_false (by simp) fun h => htakes ⟨?_, ?_⟩
    · exact CapturedOutput.Fits.left ((hfits outLimit outSink _).2 h.2.1)
    · exact CapturedOutput.Fits.left ((hfits errLimit errSink _).2 h.2.2)

/-- What the launcher is answered: the last payload, without the chunks before it. -/
theorem invokeGuest_of_responds
    {request : Bytes} {guest : GuestVirtualProcessPayload} {components : List Text}
    (hparse : parseGuestVirtualProcessPayload request = .ok guest)
    (hpath : normalizePath guest.executablePath = .ok components)
    (htarget : registry.get components = some target)
    (hresponds : Responds (respond ⟨target.token, target.path, guest.argv, guest.cwd, guest.env,
      guest.stdin⟩) writes answer) :
    invokeGuest registry respond request = some answer.response := by
  have hinvoke : invokeBlocking (respond ⟨target.token, target.path, guest.argv, guest.cwd,
      guest.env, guest.stdin⟩) = some (.ok answer.response) := by
    rw [invokeBlocking, invokeBlockingWithOutput_of_responds hresponds, receiveResponse_none]
    rfl
  rw [invokeGuest, invokeGuestResult, hparse]
  simp only [hpath, htarget, hinvoke]
  rfl

open Launcher in
/-- The launcher at a path reaches the device, prints this output and exits with this code. -/
def GuestSees (sandbox : Sandbox) (path : Text) (args : List Text) (env : OrdMap Text Text)
    (stdin stdout stderr : Bytes) (returncode : BitVec 32) : Prop :=
  ∃ final, start sandbox.host (encodeText path) (args.map encodeText)
      ((envItems env).map encodeText) (.ofStdin stdin) = some (final, returncode) ∧
    final.stdout = stdout ∧ final.stderr = stderr ∧
    ∃ offset file, final.opened = some (offset, .bridge file)

open Launcher in
/-- A guest starts a registered executable on a file system that leads from the launcher's name to
the device. The host accepts the input, the launcher has room for it and for the response, and
the responder gives a response that the launcher can take apart. -/
structure GuestRoute (sandbox : Sandbox) (registry : VirtualExecutableRegistry)
    (respond : Responder) (path : Text) (args : List Text) (env : OrdMap Text Text)
    (target : VirtualExecutableTarget) (writes : List VirtualProcessWrite) (answer : FinalAnswer)
    (payload : VirtualProcessResponsePayload) : Prop where
  opens : sandbox.opens ('/' :: launcherDevice) = some (.bridge .new)
  answers : ∀ request response, invokeGuest registry respond request = some response →
    sandbox.invokeGuest request = response
  registered : ∃ components, normalizePath path = .ok components ∧
    registry.get components = some target
  responds : Responds (respond ⟨target.token, target.path, args,
    (env.get "PWD".toList).getD "/".toList, env, []⟩) writes answer
  accepted : Accepted args env
  layout : Layout (encodeText path) (args.map encodeText) ((envItems env).map encodeText)
  response : answer.response = encodeVirtualProcessResponse payload
  response_le : (encodeVirtualProcessResponse payload).length ≤ responseCap

open Launcher in
/-- On such a file system the output arrives just when nothing was written before the response. -/
theorem guestSees_iff {path : Text}
    (h : GuestRoute sandbox registry respond path args env target writes answer payload)
    (stdin : Bytes) :
    GuestSees sandbox path args env stdin (writtenStdout writes ++ payload.stdout)
        (writtenStderr writes ++ payload.stderr) payload.returncode ↔
      writtenStdout writes = [] ∧ writtenStderr writes = [] := by
  obtain ⟨components, hpath, htarget⟩ := h.registered
  have hparse := parse_of_layout h.accepted h.layout
  have hinvoke : sandbox.invokeGuest (encodeRequest (encodeText path) (args.map encodeText)
      ((envItems env).map encodeText) []) = encodeVirtualProcessResponse payload := by
    refine h.answers _ _ ?_
    rw [← h.response]
    exact invokeGuest_of_responds hparse hpath htarget h.responds
  obtain ⟨file, offset, hstart, -⟩ := start_of_layout sandbox h.layout
    (zero_notMem_encodeText h.accepted.args) h.accepted.zero_notMem_envItems h.opens
    (.ofStdin stdin) hinvoke h.response_le
  have hsame : ∀ written own : Bytes, own = written ++ own ↔ written = [] := by
    intro written own
    simp
  constructor
  · rintro ⟨final, hfinal, hout, herr, -⟩
    obtain ⟨rfl, -⟩ := Prod.mk.inj (Option.some.inj (hstart.symm.trans hfinal))
    exact ⟨(hsame _ _).1 hout, (hsame _ _).1 herr⟩
  · rintro ⟨hout, herr⟩
    exact ⟨_, hstart, (hsame _ _).2 hout, (hsame _ _).2 herr, offset, file, rfl⟩

open Launcher in
/-- In a sandbox the launcher does not reach the device. -/
theorem not_guestSees {inner : Text → Option Bytes}
    (hopens : sandbox.opens = virtualExecutableFileSystem inner) (path : Text) (args : List Text)
    (env : OrdMap Text Text) (stdin stdout stderr : Bytes) (returncode : BitVec 32) :
    ¬GuestSees sandbox path args env stdin stdout stderr returncode := by
  rintro ⟨final, hstart, -, -, offset, file, hopened⟩
  have hs : (GuestFiles.ofStdin stdin).Unbridged := by
    simp [GuestFiles.Unbridged, GuestFiles.ofStdin]
  have hclosed : ∀ file, sandbox.opens ('/' :: launcherDevice) ≠ some (.bridge file) := by
    rw [hopens]
    exact opens_launcherDevice inner
  exact unbridged_start hclosed hs hstart offset file hopened

open Launcher in
/-- For every responder, request, sequence of writes and answer: what the host starts delivers the
output just when it fits the limits, what a guest starts in a sandbox never does, and on a file
system that leads the launcher to the device it would just when nothing was written before the
answer. -/
theorem outputRoutes_iff {respond : Responder} {args : List Text} {input : Bytes}
    {env : OrdMap Text Text} {cwd : Text} {target : VirtualExecutableTarget}
    {writes : List VirtualProcessWrite} {answer : FinalAnswer}
    {payload : VirtualProcessResponsePayload}
    (hresponds : Responds (respond ⟨target.token, target.path, args, cwd, env, input⟩) writes
      answer)
    (hcarries : answer.Carries payload) (outLimit errLimit : ℕ) (outSink errSink : Option Bytes) :
    (runVirtualCommand respond args input env cwd target (.new outLimit outSink)
        (.new errLimit errSink) =
      some (.ok ⟨args, payload.returncode, writtenStdout writes ++ payload.stdout,
        writtenStderr writes ++ payload.stderr⟩) ↔
      answer.Encodable ∧ (writtenStdout writes ++ payload.stdout).length ≤ outLimit ∧
        (writtenStderr writes ++ payload.stderr).length ≤ errLimit) ∧
    (∀ (sandbox : Sandbox) (inner : Text → Option Bytes) (path : Text) (stdin : Bytes),
      sandbox.opens = virtualExecutableFileSystem inner →
        ¬GuestSees sandbox path args env stdin (writtenStdout writes ++ payload.stdout)
          (writtenStderr writes ++ payload.stderr) payload.returncode) ∧
    (∀ (sandbox : Sandbox) (registry : VirtualExecutableRegistry) (path : Text) (stdin : Bytes),
      GuestRoute sandbox registry respond path args env target writes answer payload →
        (GuestSees sandbox path args env stdin (writtenStdout writes ++ payload.stdout)
            (writtenStderr writes ++ payload.stderr) payload.returncode ↔
          writtenStdout writes = [] ∧ writtenStderr writes = [])) :=
  ⟨runVirtualCommand_delivers_iff hresponds hcarries outLimit errLimit outSink errSink,
    fun _ _ path stdin hopens => not_guestSees hopens path args env stdin _ _ _,
    fun _ _ _ stdin hroute => guestSees_iff hroute stdin⟩

/-- A responder that writes a chunk and then answers, as the worker for host commands does. -/
def chunkRun : BridgeRun :=
  ⟨[.full, .sent], [.quiet, .event (.stdout (encodeText "hi\n".toList)), .quiet,
    .event (.complete (encodeVirtualProcessResponse ⟨0, [], []⟩))]⟩

def echoTarget : VirtualExecutableTarget := ⟨1, "/tools/echo".toList⟩

def echoArgs : List Text := ["echo".toList, "hi".toList]

theorem responds_chunkRun : Responds chunkRun [.stdout (encodeText "hi\n".toList)]
    (.respondProcess ⟨0, [], []⟩) := ⟨rfl, by decide⟩

/-- What the host starts. -/
theorem outputRoutes_chunk :
    runVirtualCommand (fun _ => chunkRun) echoArgs [] OrdMap.empty "/".toList echoTarget
        (.new 1024 none) (.new 1024 none) =
      some (.ok ⟨echoArgs, 0, encodeText "hi\n".toList ++ [], []⟩) :=
  (@outputRoutes_iff (fun _ => chunkRun) echoArgs [] OrdMap.empty "/".toList echoTarget _ _
    ⟨0, [], []⟩ responds_chunkRun rfl 1024 1024 none none).1.2
      ⟨⟨by decide, by decide⟩, by decide, by decide⟩

/-- What a guest starts: nothing arrives in a sandbox, and the device itself would answer without
the chunk. -/
theorem not_outputRoutes_chunk :
    ¬GuestSees (Launcher.echoSandbox (Launcher.virtualExecutableFileSystem fun _ => none))
        echoTarget.path echoArgs OrdMap.empty [] (encodeText "hi\n".toList) [] 0 ∧
      invokeGuest (OrdMap.empty.set ["tools".toList, "echo".toList] echoTarget)
          (fun _ => chunkRun) (encodeRequest (encodeText echoTarget.path)
            (echoArgs.map encodeText) [] []) =
        some (encodeVirtualProcessResponse ⟨0, [], []⟩) :=
  ⟨not_guestSees rfl _ _ _ _ _ _ _, by decide⟩

end WasmHost

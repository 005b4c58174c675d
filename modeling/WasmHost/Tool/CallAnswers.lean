import WasmHost.Tool.Failures

/-!
# One answer for each call

When the promise of an accepted call resolves, and to a result that says what happened
(`Answers`). A handler can spoil its result: by an id, a flag or a kind of error of its own, by
throwing an `AbortError` after the timer or a `TimeoutError` without it, by an error whose texts are
no texts. So can a caller that aborts just before the timer fires, or whose id is too long for a
failure to fit (`Careful`). In every other case the call is answered, whatever the order of events
(`answered_iff_careful`).
-/

namespace WasmHost

namespace Tool

/-! ### The property -/

def ToolResult.HasKind (r : ToolResult) (kind : String) : Prop := ∃ e ∈ r.error, e.kind.1 = js kind

/-- The bounds of a result: failures have wider ones. -/
def limits (bounds : Bounds) (r : ToolResult) : Bounds :=
  if r.success then bounds else failureResultBounds bounds

/-- A well-formed result of the call with the id, which names the first interruption. -/
structure Answers (numeral : ℚ → JsText) (callId : NonEmptyText) (bounds : Bounds)
    (winner : Option Interruption) (r : ToolResult) : Prop where
  callId : r.callId = callId
  within : Within numeral (limits bounds r) r
  outcome : r.success ∨ r.error.isSome
  cancelled : r.cancelled ↔ r.HasKind "cancelled"
  timedOut : r.timedOut ↔ r.HasKind "timeout"
  exclusive : ¬ (r.cancelled ∧ r.timedOut)
  abortWins : winner = some .abort → r.cancelled
  timerWins : winner = some .timer → r.timedOut
  normal : ∀ id, normalizeToolResult numeral (limits bounds r) id r.toJson.toValue = .ok r

/-- The signal and the timer that a call in flight has. -/
def InFlight.hears (f : InFlight) : Interruption → Bool
  | .abort => f.listening
  | .timer => f.armed

namespace Opening

/-- The bounds of a call. -/
def bounds : Opening → Bounds
  | refused _ bounds => bounds
  | cancelled bounds => bounds
  | started f => f.bounds

/-- The first of the abort and the timer. A signal may be aborted before the call. -/
def winner (before : List Interruption) : Opening → Option Interruption
  | refused _ _ => none
  | cancelled _ => some .abort
  | started f => before.find? f.hears

end Opening

/-- Whether the caller gave a signal, and whether it is aborted. -/
def SignalValue.state : SignalValue → Option Bool
  | .signal aborted => some aborted
  | .absent | .invalid => none

/-- The promise of the call is resolved with an answer. -/
def Answered (numeral : ℚ → JsText) (registry : Registry) (call : ToolCall) (signal : SignalValue)
    (before : List Interruption) (c : CallState) : Prop :=
  ∃ r, c = .settled (.ok r) ∧
    Answers numeral call.callId (openCall numeral registry call signal.state).bounds
      ((openCall numeral registry call signal.state).winner before) r

/-! ### The condition -/

/-- The fields that a handler returns: no id but that of the call, an error if there is no success,
and either flag with the error of that kind only. -/
structure Honest (callId : NonEmptyText) (value : JsValue) : Prop where
  callId : (value.field "callId").orElse (.string callId.1) = .string callId.1
  success : value.field "success" = .boolean false → value.field "error" ≠ .undefined
  cancelled : value.field "cancelled" = .boolean true ↔
    ((value.field "error").field "kind").IsText "cancelled"
  timedOut : value.field "timedOut" = .boolean true ↔
    ((value.field "error").field "kind").IsText "timeout"

/-- What the handler does is in order for the interruptions before it. -/
def CarefulHandler (numeral : ℚ → JsText) (f : InFlight) (winner : Option Interruption)
    (outcome : Outcome) : Prop :=
  if f.timedOut then
    winner = some .timer ∧ FailureFits numeral f.bounds f.callId timeoutError false true ∧
      match outcome with
      | .returned _ => True
      | .threw error => f.aborted = false ∧ ¬ error.name.IsText "AbortError"
  else if f.aborted then
    FailureFits numeral f.bounds f.callId cancelledError true false ∧
      match outcome with
      | .returned _ => True
      | .threw error => ¬ error.name.IsText "TimeoutError"
  else
    match outcome with
    | .returned value =>
      match normalizeToolResult numeral f.bounds (.string f.callId.1) value with
      | .ok _ => Honest f.callId value
      | .error e => FailureFits numeral f.bounds f.callId e.toResultError false false
    | .threw error =>
      ¬ error.name.IsText "TimeoutError" ∧
      if error.name.IsText "AbortError" then
        FailureFits numeral f.bounds f.callId cancelledError true false
      else
        match error with
        | .protocolError _ fields true => ∃ e, Reports fields e ∧
            e.kind.1 ≠ js "cancelled" ∧ e.kind.1 ≠ js "timeout" ∧
            FailureFits numeral f.bounds f.callId e false false
        | _ => FailureFits numeral f.bounds f.callId toolFailed false false

/-- The call in flight after some interruptions. -/
def InFlight.after (f : InFlight) (before : List Interruption) : InFlight :=
  before.foldl InFlight.interrupt f

/-- A call that is answered: its signal is one, the failure that it may end with fits, and its
handler is careful. -/
def Careful (numeral : ℚ → JsText) (registry : Registry) (call : ToolCall) (signal : SignalValue)
    (before : List Interruption) (outcome : Outcome) : Prop :=
  match signal with
  | .invalid => False
  | .absent | .signal _ =>
    match openCall numeral registry call signal.state with
    | .refused error bounds => FailureFits numeral bounds call.callId error false false
    | .cancelled bounds => FailureFits numeral bounds call.callId cancelledError true false
    | .started f => CarefulHandler numeral (f.after before) (before.find? f.hears) outcome

/-! ### Failures -/

variable {numeral : ℚ → JsText} {bounds : Bounds} {callId : NonEmptyText}
    {winner : Option Interruption} {e : ResultError} {signal : SignalValue}

theorem cancelled_ne_timeout : js "cancelled" ≠ js "timeout" := by decide

variable {cancelled timedOut : Bool} {registry : Registry} {call : ToolCall}

theorem answers_failure_iff :
    Answers numeral callId bounds winner (failure callId e cancelled timedOut) ↔
      FailureFits numeral bounds callId e cancelled timedOut ∧
        (cancelled ↔ e.kind.1 = js "cancelled") ∧ (timedOut ↔ e.kind.1 = js "timeout") ∧
        (winner = some .abort → cancelled) ∧ (winner = some .timer → timedOut) := by
  have hkind (kind : String) : (failure callId e cancelled timedOut).HasKind kind ↔
      e.kind.1 = js kind := by
    simp [ToolResult.HasKind, failure]
  constructor
  · intro h
    exact ⟨h.within, h.cancelled.trans (hkind _), h.timedOut.trans (hkind _), h.abortWins,
      h.timerWins⟩
  · rintro ⟨hfits, hcancelled, htimedOut, habort, htimer⟩
    exact {
      callId := rfl
      within := hfits
      outcome := .inr rfl
      cancelled := hcancelled.trans (hkind _).symm
      timedOut := htimedOut.trans (hkind _).symm
      -- The kind of an error is one text.
      exclusive := fun h => cancelled_ne_timeout ((hcancelled.1 h.1).symm.trans (htimedOut.1 h.2))
      abortWins := habort
      timerWins := htimer
      normal := normalizeToolResult_toJson hfits }

theorem failureResult_answers_iff {fields : ErrorFields} :
    (∃ r, failureResult numeral fields bounds callId cancelled timedOut = .ok r ∧
      Answers numeral callId bounds winner r) ↔
    ∃ e, Reports fields e ∧ FailureFits numeral bounds callId e cancelled timedOut ∧
      (cancelled ↔ e.kind.1 = js "cancelled") ∧ (timedOut ↔ e.kind.1 = js "timeout") ∧
      (winner = some .abort → cancelled) ∧ (winner = some .timer → timedOut) := by
  constructor
  · rintro ⟨r, hr, hanswers⟩
    obtain ⟨e, he, rfl, -⟩ := failureResult_eq_ok_iff.1 hr
    exact ⟨e, he, answers_failure_iff.1 hanswers⟩
  · rintro ⟨e, he, hfits, hrest⟩
    exact ⟨_, failureResult_eq_ok_iff.2 ⟨e, he, rfl, hfits⟩, answers_failure_iff.2 ⟨hfits, hrest⟩⟩

/-- The failures of the protocol's own errors. -/
theorem failureResult_ofError_answers_iff :
    (∃ r, failureResult numeral (.ofError e) bounds callId cancelled timedOut = .ok r ∧
      Answers numeral callId bounds winner r) ↔
    FailureFits numeral bounds callId e cancelled timedOut ∧
      (cancelled ↔ e.kind.1 = js "cancelled") ∧ (timedOut ↔ e.kind.1 = js "timeout") ∧
      (winner = some .abort → cancelled) ∧ (winner = some .timer → timedOut) := by
  rw [failureResult_answers_iff]
  constructor
  · rintro ⟨e', he', hrest⟩
    obtain rfl := (reports_ofError e).unique he'
    exact hrest
  · intro h
    exact ⟨e, reports_ofError e, h⟩

/-! ### Values that are accepted -/

theorem within_limits {r : ToolResult} (h : Within numeral bounds r) :
    Within numeral (limits bounds r) r := by
  unfold limits
  split
  · exact h
  · exact h.mono (le_max_left _ _) (le_max_left _ _) (le_max_left _ _)

theorem isTrue_iff (value : JsValue) : value.isTrue ↔ value = .boolean true := by
  cases value <;> simp [JsValue.isTrue]

section

variable {given value : JsValue} {r : ToolResult}

section

variable (h : Reads given value r)
include h

theorem Reads.callId_iff :
    r.callId = callId ↔ (value.field "callId").orElse given = .string callId.1 := by
  rw [nonEmptyString_eq_ok_iff.1 h.callId, JsValue.string.injEq, Subtype.ext_iff]

theorem Reads.success_iff :
    r.success = false ↔ value.field "success" = .boolean false := by
  have hsuccess := h.success
  generalize value.field "success" = v at hsuccess ⊢
  cases v with
  | boolean b =>
    obtain rfl : b = r.success := Except.ok.inj hsuccess
    simp
  | undefined | null =>
    obtain hr : true = r.success := Except.ok.inj hsuccess
    simp [← hr]
  | _ => cases hsuccess

theorem Reads.error_iff :
    r.error.isSome ↔ value.field "error" ≠ .undefined := by
  obtain ⟨hv, hr⟩ | ⟨hv, e, -, hr⟩ := unlessUndefined_eq_ok_iff.1 h.error
  · rw [hr]
    exact iff_of_false nofun fun hne => hne hv
  · rw [hr]
    exact iff_of_true rfl hv

/-- The kind of the error is the one that the value names. -/
theorem Reads.hasKind_iff (kind : String) :
    r.HasKind kind ↔ ((value.field "error").field "kind").IsText kind := by
  obtain ⟨hv, hr⟩ | ⟨-, e, he, hr⟩ := unlessUndefined_eq_ok_iff.1 h.error
  · rw [hv, ToolResult.HasKind, hr]
    exact iff_of_false nofun nofun
  · simp only [normalizeResultError, bind, pure, Except.pure, Except.bind_eq_ok_iff,
      objectParam_eq_ok_iff, nonEmptyString_eq_ok_iff] at he
    obtain ⟨_, ⟨-, rfl⟩, k, hk, _, -, _, -, hek⟩ := he
    obtain rfl := Except.ok.inj hek
    simp [hr, ToolResult.HasKind, JsValue.IsText, hk]

end

theorem answers_iff_honest
    (h : normalizeToolResult numeral bounds (.string callId.1) value = .ok r) :
    Answers numeral callId bounds none r ↔ Honest callId value := by
  obtain ⟨hreads, hwithin⟩ := normalizeToolResult_eq_ok_iff.1 h
  have hcancelled : r.cancelled ↔ value.field "cancelled" = .boolean true := by
    rw [← hreads.cancelled, isTrue_iff]
  have htimedOut : r.timedOut ↔ value.field "timedOut" = .boolean true := by
    rw [← hreads.timedOut, isTrue_iff]
  have houtcome : (r.success ∨ r.error.isSome) ↔
      (value.field "success" = .boolean false → value.field "error" ≠ .undefined) := by
    rw [← hreads.success_iff, ← hreads.error_iff]
    cases r.success <;> simp
  constructor
  · intro ha
    exact ⟨hreads.callId_iff.1 ha.callId, houtcome.1 ha.outcome,
      hcancelled.symm.trans (ha.cancelled.trans (hreads.hasKind_iff _)),
      htimedOut.symm.trans (ha.timedOut.trans (hreads.hasKind_iff _))⟩
  · rintro ⟨hid, hsuccess, hc, ht⟩
    have hc' := hcancelled.trans (hc.trans (hreads.hasKind_iff _).symm)
    have ht' := htimedOut.trans (ht.trans (hreads.hasKind_iff _).symm)
    exact {
      callId := hreads.callId_iff.2 hid
      within := within_limits hwithin
      outcome := houtcome.2 hsuccess
      cancelled := hc'
      timedOut := ht'
      exclusive := by
        rintro ⟨h1, h2⟩
        obtain ⟨e, he, hk⟩ := hc'.1 h1
        obtain ⟨e', he', hk'⟩ := ht'.1 h2
        obtain rfl := Option.mem_unique he he'
        exact cancelled_ne_timeout (hk.symm.trans hk')
      abortWins := nofun
      timerWins := nofun
      normal := normalizeToolResult_toJson (within_limits hwithin) }

end

/-! ### Handlers -/

theorem kind_toResultError_ne (e : ShapeError) :
    e.toResultError.kind.1 ≠ js "cancelled" ∧ e.toResultError.kind.1 ≠ js "timeout" := by
  have hkind (kind : ShapeKind) : kind.text.1 ≠ js "cancelled" ∧ kind.text.1 ≠ js "timeout" := by
    cases kind <;> decide
  exact hkind e.kind

theorem name_toThrown (e : ShapeError) : ¬ e.toThrown.name.IsText "TimeoutError" ∧
    ¬ e.toThrown.name.IsText "AbortError" := by
  change ¬ (JsValue.string (js "BrowserToolProtocolError")).IsText "TimeoutError" ∧
    ¬ (JsValue.string (js "BrowserToolProtocolError")).IsText "AbortError"
  decide

/-- The interruptions that a call in flight has heard of determine which may have been first. -/
structure Heard (f : InFlight) (winner : Option Interruption) : Prop where
  timedOut : f.timedOut = true → winner ≠ none
  aborted : f.timedOut = false → f.aborted = true → winner = some .abort
  neither : f.timedOut = false → f.aborted = false → winner = none

section

variable {f : InFlight} {error : Thrown}

theorem fail_answers_iff_of_timedOut (hf : f.timedOut = true) (hw : winner ≠ none) :
    (∃ r, f.fail numeral error = .ok r ∧ Answers numeral f.callId f.bounds winner r) ↔
      winner = some .timer ∧ FailureFits numeral f.bounds f.callId timeoutError false true ∧
        f.aborted = false ∧ ¬ error.name.IsText "AbortError" := by
  have hclass : classifyCallError error f.aborted f.timedOut = .ofError timeoutError :=
    if_pos (.inl hf)
  have htimeout : timeoutError.kind.1 = js "timeout" := rfl
  rw [InFlight.fail, hclass, hf, failureResult_ofError_answers_iff]
  simp only [htimeout, cancelled_ne_timeout.symm, Bool.or_eq_true, decide_eq_true_eq,
    iff_false, not_or, true_and, implies_true, and_true]
  constructor
  · rintro ⟨hfits, ⟨haborted, hname⟩, hwinner⟩
    have hflag : f.aborted = false := by simpa using haborted
    have hflags : (f.aborted || decide (error.name.IsText "AbortError")) = false := by
      simp [hflag, hname]
    rw [hflags] at hfits
    refine ⟨?_, hfits, hflag, hname⟩
    match winner, hw with
    | some .timer, _ => rfl
    | some .abort, _ => exact absurd (hwinner rfl) (by simp [hflag, hname])
  · rintro ⟨rfl, hfits, hflag, hname⟩
    have hflags : (f.aborted || decide (error.name.IsText "AbortError")) = false := by
      simp [hflag, hname]
    rw [hflags]
    exact ⟨hfits, ⟨by simp [hflag], hname⟩, nofun⟩

theorem fail_answers_iff_of_aborted (hf : f.timedOut = false) (ha : f.aborted = true) :
    (∃ r, f.fail numeral error = .ok r ∧ Answers numeral f.callId f.bounds (some .abort) r) ↔
      ¬ error.name.IsText "TimeoutError" ∧
        FailureFits numeral f.bounds f.callId cancelledError true false := by
  rw [InFlight.fail, hf, ha, Bool.true_or]
  by_cases hname : error.name.IsText "TimeoutError"
  · -- The error becomes a timeout, and the flag stays that of the abort.
    have hclass : classifyCallError error true false = .ofError timeoutError := if_pos (.inr hname)
    rw [hclass, failureResult_ofError_answers_iff]
    exact iff_of_false (fun h => cancelled_ne_timeout.symm (h.2.1.1 rfl)) fun h => h.1 hname
  · have hclass : classifyCallError error true false = .ofError cancelledError :=
      (if_neg (by simp [hname])).trans (if_pos (.inl rfl))
    have hkind : cancelledError.kind.1 = js "cancelled" := rfl
    rw [hclass, failureResult_ofError_answers_iff]
    simp [hkind, hname, cancelled_ne_timeout]

theorem fail_answers_iff_of_neither (hf : f.timedOut = false) (ha : f.aborted = false) :
    (∃ r, f.fail numeral error = .ok r ∧ Answers numeral f.callId f.bounds none r) ↔
      ¬ error.name.IsText "TimeoutError" ∧
      if error.name.IsText "AbortError" then
        FailureFits numeral f.bounds f.callId cancelledError true false
      else
        match error with
        | .protocolError _ fields true => ∃ e, Reports fields e ∧
            e.kind.1 ≠ js "cancelled" ∧ e.kind.1 ≠ js "timeout" ∧
            FailureFits numeral f.bounds f.callId e false false
        | _ => FailureFits numeral f.bounds f.callId toolFailed false false := by
  rw [InFlight.fail, hf, ha, Bool.false_or]
  by_cases hname : error.name.IsText "TimeoutError"
  · have hclass : classifyCallError error false false = .ofError timeoutError := if_pos (.inr hname)
    rw [hclass, failureResult_ofError_answers_iff]
    exact iff_of_false (fun h => absurd (h.2.2.1.2 rfl) nofun) fun h => h.1 hname
  by_cases habort : error.name.IsText "AbortError"
  · have hclass : classifyCallError error false false = .ofError cancelledError :=
      (if_neg (by simp [hname])).trans (if_pos (.inr habort))
    have hkind : cancelledError.kind.1 = js "cancelled" := rfl
    rw [hclass, failureResult_ofError_answers_iff, if_pos habort]
    simp [hkind, hname, habort, cancelled_ne_timeout]
  · have hflag : decide (error.name.IsText "AbortError") = false := decide_eq_false habort
    have hfailed : toolFailed.kind.1 ≠ js "cancelled" ∧ toolFailed.kind.1 ≠ js "timeout" :=
      by decide
    rw [hflag, if_neg habort]
    match error with
    | .protocolError name fields true =>
      have hclass : classifyCallError (.protocolError name fields true) false false = fields :=
        (if_neg (by simp [hname])).trans (if_neg (by simp [habort]))
      rw [hclass, failureResult_answers_iff]
      simp only [Bool.false_eq_true, false_iff, reduceCtorEq, false_implies, and_true]
      constructor
      · rintro ⟨e, he, hfits, hc, ht⟩
        exact ⟨hname, e, he, hc, ht, hfits⟩
      · rintro ⟨-, e, he, hc, ht, hfits⟩
        exact ⟨e, he, hfits, hc, ht⟩
    | .protocolError name fields false =>
      have hclass : classifyCallError (.protocolError name fields false) false false =
          .ofError toolFailed :=
        (if_neg (by simp [hname])).trans (if_neg (by simp [habort]))
      rw [hclass, failureResult_ofError_answers_iff]
      simp [hfailed, hname]
    | .other name =>
      have hclass : classifyCallError (.other name) false false = .ofError toolFailed :=
        (if_neg (by simp [hname])).trans (if_neg (by simp [habort]))
      rw [hclass, failureResult_ofError_answers_iff]
      simp [hfailed, hname]

theorem not_failureFits_of_error {e' : ShapeError}
    (h : failureResult numeral (.ofError e) bounds callId cancelled timedOut = .error e') :
    ¬ FailureFits numeral bounds callId e cancelled timedOut := by
  intro hfits
  rw [failureResult_eq_ok_iff.2 ⟨e, reports_ofError e, rfl, hfits⟩] at h
  cases h

/-- What a handler returns is accepted, or the complaint about it is the failure. -/
theorem finish_returned_iff {value : JsValue} {p : ToolResult → Prop} :
    (∃ r, f.finish numeral (.returned value) = .ok r ∧ p r) ↔
      (∃ r, f.accept numeral value = .ok r ∧ p r) ∨
        ∃ e, f.accept numeral value = .error e ∧ ∃ r, f.fail numeral e.toThrown = .ok r ∧ p r := by
  rw [InFlight.finish]
  cases f.accept numeral value with
  | ok | error => simp

/-- A complaint about the value is reported as it is. -/
theorem fail_toThrown_answers_iff (hf : f.timedOut = false) (ha : f.aborted = false)
    (e : ShapeError) :
    (∃ r, f.fail numeral e.toThrown = .ok r ∧ Answers numeral f.callId f.bounds none r) ↔
      FailureFits numeral f.bounds f.callId e.toResultError false false := by
  obtain ⟨htimeout, habort⟩ := name_toThrown e
  obtain ⟨hc, ht⟩ := kind_toResultError_ne e
  rw [fail_answers_iff_of_neither hf ha, if_neg habort]
  constructor
  · rintro ⟨-, e', he', -, -, hfits⟩
    rwa [(reports_ofError e.toResultError).unique he']
  · intro hfits
    exact ⟨htimeout, _, reports_ofError e.toResultError, hc, ht, hfits⟩

theorem finish_answers_iff {outcome : Outcome} (hw : Heard f winner) :
    (∃ r, f.finish numeral outcome = .ok r ∧ Answers numeral f.callId f.bounds winner r) ↔
      CarefulHandler numeral f winner outcome := by
  unfold CarefulHandler
  cases hf : f.timedOut with
  | true =>
    have hsome := hw.timedOut hf
    rw [if_pos rfl]
    cases outcome with
    | threw => exact fail_answers_iff_of_timedOut hf hsome
    | returned value =>
      have haccept : f.accept numeral value =
        failureResult numeral (.ofError timeoutError) f.bounds f.callId false true := if_pos hf
      rw [finish_returned_iff, haccept, failureResult_ofError_answers_iff]
      constructor
      · rintro (⟨hfits, -, -, habort, -⟩ | ⟨e, he, hfail⟩)
        · refine ⟨?_, hfits, trivial⟩
          match winner, hsome, habort with
          | some .timer, _, _ => rfl
          | some .abort, _, habort => exact absurd (habort rfl) Bool.false_ne_true
        · exact absurd ((fail_answers_iff_of_timedOut hf hsome).1 hfail).2.1
            (not_failureFits_of_error he)
      · rintro ⟨rfl, hfits, -⟩
        exact .inl ⟨hfits, by decide, by decide, nofun, fun _ => rfl⟩
  | false =>
    rw [if_neg Bool.false_ne_true]
    cases ha : f.aborted with
    | true =>
      obtain rfl := hw.aborted hf ha
      rw [if_pos rfl]
      cases outcome with
      | threw => exact (fail_answers_iff_of_aborted hf ha).trans and_comm
      | returned value =>
        have haccept : f.accept numeral value =
            failureResult numeral (.ofError cancelledError) f.bounds f.callId true false :=
          (if_neg (by simp [hf])).trans (if_pos ha)
        rw [finish_returned_iff, haccept, failureResult_ofError_answers_iff]
        constructor
        · rintro (⟨hfits, -⟩ | ⟨e, he, hfail⟩)
          · exact ⟨hfits, trivial⟩
          · exact absurd ((fail_answers_iff_of_aborted hf ha).1 hfail).2
              (not_failureFits_of_error he)
        · rintro ⟨hfits, -⟩
          exact .inl ⟨hfits, by decide, by decide, fun _ => rfl, nofun⟩
    | false =>
      obtain rfl := hw.neither hf ha
      rw [if_neg Bool.false_ne_true]
      cases outcome with
      | threw => exact fail_answers_iff_of_neither hf ha
      | returned value =>
        have haccept : f.accept numeral value =
            normalizeToolResult numeral f.bounds (.string f.callId.1) value :=
          (if_neg (by simp [hf])).trans (if_neg (by simp [ha]))
        rw [finish_returned_iff, haccept]
        cases h : normalizeToolResult numeral f.bounds (.string f.callId.1) value with
        | ok => simp [answers_iff_honest h, h]
        | error => simp [fail_toThrown_answers_iff hf ha, h]

end

/-! ### Runs -/

section

variable {f : InFlight}

theorem after_flags (f : InFlight) (before : List Interruption) :
    f.after before = { f with
      aborted := f.aborted || f.listening && decide (.abort ∈ before)
      timedOut := f.timedOut || f.armed && decide (.timer ∈ before) } := by
  induction before generalizing f with
  | nil => simp [InFlight.after]
  | cons i before ih =>
    rw [InFlight.after, List.foldl_cons, ← InFlight.after, ih]
    cases i <;> simp [InFlight.interrupt] <;> grind

theorem heard_after (ha : f.aborted = false) (ht : f.timedOut = false)
    (before : List Interruption) : Heard (f.after before) (before.find? f.hears) := by
  have htimer : (f.after before).timedOut = true ↔ f.armed ∧ .timer ∈ before := by
    simp [after_flags, ht]
  have habort : (f.after before).aborted = true ↔ f.listening ∧ .abort ∈ before := by
    simp [after_flags, ha]
  constructor
  · intro h hnone
    obtain ⟨harmed, hmem⟩ := htimer.1 h
    exact List.find?_eq_none.1 hnone _ hmem harmed
  · intro hno h
    obtain ⟨hlisten, hmem⟩ := habort.1 h
    cases hfind : before.find? f.hears with
    | none => exact absurd hlisten (List.find?_eq_none.1 hfind _ hmem)
    | some i =>
      cases i with
      | abort => rfl
      | timer =>
        have harmed : f.hears .timer := List.find?_some hfind
        rw [htimer.2 ⟨harmed, List.mem_of_find?_eq_some hfind⟩] at hno
        cases hno
  · intro hno hna
    rw [List.find?_eq_none]
    intro i hi hears
    cases i with
    | abort => rw [habort.2 ⟨hears, hi⟩] at hna; cases hna
    | timer => rw [htimer.2 ⟨hears, hi⟩] at hno; cases hno

theorem run_settled (answer : Except ShapeError ToolResult) (events : List CallEvent) :
    (CallState.settled answer).run numeral events = .settled answer := by
  induction events with
  | nil => rfl
  | cons e events ih => exact ih

theorem run_running (f : InFlight) (before : List Interruption) (outcome : Outcome)
    (after : List CallEvent) :
    (CallState.running f).run numeral
        (before.map CallEvent.interrupted ++ .completed outcome :: after) =
      .settled ((f.after before).finish numeral outcome) := by
  induction before generalizing f with
  | nil => exact run_settled _ after
  | cons i before ih => exact ih (f.interrupt i)

end

theorem callTool_eq {now : ℚ} {request : CallRequest}
    (hcall : normalizeToolCall now request = .ok call)
    (hsignal : optionalAbortSignal signal = .ok signal.state) :
    callTool numeral registry now request signal =
      match openCall numeral registry call signal.state with
      | .refused error bounds =>
        .settled (failureResult numeral (.ofError error) bounds call.callId false false)
      | .cancelled bounds =>
        .settled (failureResult numeral (.ofError cancelledError) bounds call.callId true false)
      | .started f => .running f := by
  cases hopen : openCall numeral registry call signal.state <;>
    simp only [callTool, hsignal, hcall, hopen]

/-- A call that starts is the call, and nothing has happened yet. -/
theorem openCall_started {signal : Option Bool} {f : InFlight}
    (h : openCall numeral registry call signal = .started f) :
    f.callId = call.callId ∧ f.aborted = false ∧ f.timedOut = false := by
  unfold openCall at h
  cases hentry : registry.entries.lookup (toolKey call) with
  | none => simp [hentry] at h
  | some =>
    simp only [hentry] at h
    split_ifs at h
    obtain rfl := Opening.started.inj h
    exact ⟨rfl, rfl, rfl⟩

/-- The tool is unknown or the arguments are too large. -/
theorem openCall_refused {signal : Option Bool} {error : ResultError}
    (h : openCall numeral registry call signal = .refused error bounds) :
    error.kind.1 ≠ js "cancelled" ∧ error.kind.1 ≠ js "timeout" := by
  have hnotFound : js "tool_not_found" ≠ js "cancelled" ∧ js "tool_not_found" ≠ js "timeout" := by
    decide
  have htooLarge : js "arguments_too_large" ≠ js "cancelled" ∧
      js "arguments_too_large" ≠ js "timeout" := by
    decide
  unfold openCall at h
  cases hentry : registry.entries.lookup (toolKey call) with
  | none =>
    simp only [hentry, Opening.refused.injEq] at h
    obtain ⟨rfl, -⟩ := h
    exact hnotFound
  | some =>
    simp only [hentry] at h
    split_ifs at h
    obtain ⟨rfl, -⟩ := Opening.refused.inj h
    exact htooLarge

theorem answered_settled_iff {before : List Interruption} {answer : Except ShapeError ToolResult} :
    Answered numeral registry call signal before (.settled answer) ↔
      ∃ r, answer = .ok r ∧
        Answers numeral call.callId (openCall numeral registry call signal.state).bounds
          ((openCall numeral registry call signal.state).winner before) r := by
  simp only [Answered, CallState.settled.injEq]

/-- An accepted call whose handler has settled is answered exactly if it is careful. -/
theorem answered_iff_careful {registry : Registry} {now : ℚ} {request : CallRequest}
    {call : ToolCall} (hcall : normalizeToolCall now request = .ok call) (signal : SignalValue)
    (before : List Interruption) (outcome : Outcome) (after : List CallEvent) :
    Answered numeral registry call signal before
        ((callTool numeral registry now request signal).run numeral
          (before.map CallEvent.interrupted ++ .completed outcome :: after)) ↔
      Careful numeral registry call signal before outcome := by
  by_cases hinvalid : signal = .invalid
  · subst hinvalid
    have hrejects :
        callTool numeral registry now request .invalid = .settled (.error ⟨.invalidSignal,
        .of "browser tool signal must be an AbortSignal", .invocation⟩) := rfl
    rw [hrejects, run_settled, answered_settled_iff]
    exact iff_of_false nofun id
  have hsignal : optionalAbortSignal signal = .ok signal.state := by
    cases signal with
    | invalid => exact absurd rfl hinvalid
    | absent | signal _ => rfl
  have hcareful : Careful numeral registry call signal before outcome ↔
      match openCall numeral registry call signal.state with
      | .refused error bounds => FailureFits numeral bounds call.callId error false false
      | .cancelled bounds => FailureFits numeral bounds call.callId cancelledError true false
      | .started f => CarefulHandler numeral (f.after before) (before.find? f.hears) outcome := by
    cases signal with
    | invalid => exact absurd rfl hinvalid
    | absent | signal _ => rfl
  rw [hcareful, callTool_eq hcall hsignal]
  cases hopen : openCall numeral registry call signal.state with
  | refused error bounds =>
    obtain ⟨hc, ht⟩ := openCall_refused hopen
    rw [run_settled, answered_settled_iff, hopen]
    dsimp only [Opening.bounds, Opening.winner]
    rw [failureResult_ofError_answers_iff]
    simp [hc, ht]
  | cancelled bounds =>
    have hkind : cancelledError.kind.1 = js "cancelled" := rfl
    rw [run_settled, answered_settled_iff, hopen]
    dsimp only [Opening.bounds, Opening.winner]
    rw [failureResult_ofError_answers_iff]
    simp [hkind, cancelled_ne_timeout]
  | started f =>
    obtain ⟨hid, ha, ht⟩ := openCall_started hopen
    have hid' : (f.after before).callId = call.callId := by rw [after_flags]; exact hid
    have hbounds : (f.after before).bounds = f.bounds := by rw [after_flags]
    have hfinish : (∃ r, (f.after before).finish numeral outcome = .ok r ∧
        Answers numeral (f.after before).callId (f.after before).bounds (before.find? f.hears) r) ↔
        CarefulHandler numeral (f.after before) (before.find? f.hears) outcome :=
      finish_answers_iff (heard_after ha ht before)
    rw [hid', hbounds] at hfinish
    rw [run_running, answered_settled_iff, hopen]
    exact hfinish

/-! ### A call with a timer -/

/-- A tool without bounds of its own. -/
def sleepRegistry : Registry where
  defaultBounds := defaultBounds
  entries := [(0 :: js "sleep", ⟨none, none, none, none, none⟩)]

/-- A call of it that may take five milliseconds. -/
def sleepRequest : CallRequest where
  callId := .string (js "call")
  turnId := .string (js "turn")
  nameSpace := .undefined
  tool := .string (js "sleep")
  arguments := .undefined
  bounds := .object .plain [(js "timeoutMs", .number 5)]
  startedAtMs := .undefined
  threadId := .undefined
  itemId := .undefined
  deadlineMs := .undefined

/-- A call that takes time. -/
def sleepCall : ToolCall where
  callId := .of "call"
  turnId := .of "turn"
  nameSpace := none
  tool := .of "sleep"
  arguments := .object []
  bounds := ⟨none, none, none, none, some 5⟩
  startedAtMs := 0
  threadId := none
  itemId := none
  deadlineMs := none

theorem normalizeToolCall_sleep : normalizeToolCall 0 sleepRequest = .ok sleepCall := rfl

/-- Nothing of the call is printed as a number. -/
def noNumeral (_ : ℚ) : JsText := []

/-- The call in flight. -/
def sleeping : InFlight where
  callId := .of "call"
  bounds := callBounds sleepRegistry ⟨none, none, none, none, none⟩ sleepCall
  listening := false
  armed := true
  aborted := false
  timedOut := false

/-- The handler returns an object without fields in time. -/
theorem answered_iff_careful_sleep :
    Answered noNumeral sleepRegistry sleepCall .absent []
      ((callTool noNumeral sleepRegistry 0 sleepRequest .absent).run noNumeral
        [.completed (.returned (.object .plain []))]) := by
  refine (answered_iff_careful normalizeToolCall_sleep .absent [] (.returned (.object .plain []))
    []).2 ?_
  have hok : normalizeToolResult noNumeral sleeping.bounds (.string sleeping.callId.1)
    (.object .plain []) = .ok ⟨.of "call", true, [], none, none, none, none, false, false⟩ := rfl
  have hhonest : Honest sleeping.callId (.object .plain []) :=
    ⟨rfl, nofun, ⟨nofun, nofun⟩, ⟨nofun, nofun⟩⟩
  change (match normalizeToolResult noNumeral sleeping.bounds (.string sleeping.callId.1)
      (.object .plain []) with
    | .ok _ => Honest sleeping.callId (.object .plain [])
    | .error e => FailureFits noNumeral sleeping.bounds sleeping.callId e.toResultError false false)
  rw [hok]
  exact hhonest

/-- The timer fires, with a `TimeoutError` as the reason of the signal, and the handler throws an
`AbortError` of its own: the result is timed out and cancelled at once. -/
theorem not_answered_abortError_sleep :
    normalizeToolCall 0 sleepRequest = .ok sleepCall ∧
    ¬ Answered noNumeral sleepRegistry sleepCall .absent [.timer]
      ((callTool noNumeral sleepRegistry 0 sleepRequest .absent).run noNumeral
        [.interrupted .timer, .completed (.threw (.other (.string (js "AbortError"))))]) := by
  refine ⟨normalizeToolCall_sleep, ?_⟩
  rintro ⟨r, hr, hanswers⟩
  have hfinish : (sleeping.after [.timer]).finish noNumeral
      (.threw (.other (.string (js "AbortError")))) = .ok r := CallState.settled.inj hr
  have hcareful := (finish_answers_iff (heard_after rfl rfl [.timer])).1 ⟨r, hfinish, hanswers⟩
  exact hcareful.2.2.2 rfl

end Tool

end WasmHost

import WasmHost.Tool.Calls

/-!
# Failures as results

A failure is rendered by the normalizer of results, which refuses some: it is accepted exactly when
the error names a kind, a message and perhaps a stage (`Reports`) and the result that says so
(`failure`) is within the bounds of failures (`failureResult_eq_ok_iff`).
-/

namespace WasmHost

namespace Tool

/-- The result that reports an error. -/
def failure (callId : NonEmptyText) (e : ResultError) (cancelled timedOut : Bool) : ToolResult where
  callId := callId
  success := false
  contentItems := [.text e.message.1 none]
  structured := none
  error := some e
  completedAtMs := none
  durationMs := none
  cancelled := cancelled
  timedOut := timedOut

/-- The fields are those of an error. The code stands in for the kind, and a text of its own for
both. -/
structure Reports (fields : ErrorFields) (e : ResultError) : Prop where
  kind : fields.kind.orElse (fields.code.orElse (.string (js "tool_failed"))) = .string e.kind.1
  message : fields.message = .string e.message.1
  stage : fields.stage = (e.stage.map fun stage => .string stage.1).getD .undefined

theorem reports_ofError (e : ResultError) : Reports (.ofError e) e := ⟨rfl, rfl, rfl⟩

variable {fields : ErrorFields} {value : JsValue}

theorem Reports.unique {e e' : ResultError} (h : Reports fields e) (h' : Reports fields e') :
    e = e' := by
  have hkind := h.kind.symm.trans h'.kind
  have hmessage := h.message.symm.trans h'.message
  have hstage := h.stage.symm.trans h'.stage
  obtain ⟨kind, message, stage⟩ := e
  obtain ⟨kind', message', stage'⟩ := e'
  simp only [JsValue.string.injEq] at hkind hmessage
  obtain rfl : kind = kind' := Subtype.ext hkind
  obtain rfl : message = message' := Subtype.ext hmessage
  cases stage <;> cases stage' <;> simp_all [Subtype.ext_iff]

theorem nonEmptyString_eq_ok_iff {field : String} {stage : Stage} {t : NonEmptyText} :
    nonEmptyString value field stage = .ok t ↔ value = .string t.1 := by
  obtain ⟨t, ht⟩ := t
  cases value with
  | string u =>
    by_cases hu : u = []
    · subst hu
      simp [nonEmptyString, stringParam, Except.bind, ht.symm]
    · simp [nonEmptyString, stringParam, Except.bind, hu, Subtype.ext_iff]
  | _ => simp [nonEmptyString, stringParam, Except.bind]

theorem unlessUndefined_eq_ok_iff {α : Type} {read : JsValue → Except ShapeError α} {o : Option α} :
    unlessUndefined value read = .ok o ↔
      (value = .undefined ∧ o = none) ∨
      (value ≠ .undefined ∧ ∃ a, read value = .ok a ∧ o = some a) := by
  by_cases h : value = .undefined
  · subst h
    simp [unlessUndefined, eq_comm]
  · have hread : unlessUndefined value read = (read value).map some := by
      cases value <;> first | rfl | exact absurd rfl h
    rw [hread]
    cases read value <;> simp [Except.map, h, eq_comm]

section

variable {fields : ErrorFields} {callId : NonEmptyText} {cancelled timedOut : Bool}
    {e : ResultError}

theorem failureObject_serializable (h : Reports fields e) :
    ∃ j, assertJsonSerializable (failureObject fields callId cancelled timedOut) = .ok j := by
  obtain ⟨hkind, hmessage, hstage⟩ := h
  rw [failureObject, hkind, hmessage, hstage]
  cases e.stage <;> cases cancelled <;> cases timedOut <;> exact ⟨_, rfl⟩

variable (fields) in
/-- The object under `error`. -/
def errorObject : JsValue :=
  .object .plain
    ([(js "kind", fields.kind.orElse (fields.code.orElse (.string (js "tool_failed")))),
    (js "message", fields.message)] ++ definedField "stage" fields.stage)

theorem normalizeResultError_errorObject :
    normalizeResultError (errorObject fields) = .ok e ↔ Reports fields e := by
  have hkind : (errorObject fields).field "kind" =
    fields.kind.orElse (fields.code.orElse (.string (js "tool_failed"))) := rfl
  have hmessage : (errorObject fields).field "message" = fields.message := rfl
  have hstage : (errorObject fields).field "stage" = fields.stage := by
    rw [errorObject]
    cases fields.stage <;> rfl
  simp only [normalizeResultError, bind, pure, Except.pure, Except.bind_eq_ok_iff,
    objectParam_eq_ok_iff, nonEmptyString_eq_ok_iff, unlessUndefined_eq_ok_iff, Except.ok.injEq]
  constructor
  · rintro ⟨_, ⟨-, rfl⟩, kind, hk, message, hm, stage, hs, rfl⟩
    rw [hkind] at hk
    rw [hmessage] at hm
    rw [hstage] at hs
    refine ⟨hk, hm, ?_⟩
    obtain ⟨hs, rfl⟩ | ⟨-, t, hs, rfl⟩ := hs <;> exact hs
  · rintro ⟨hk, hm, hs⟩
    refine ⟨_, ⟨⟨.plain, _, rfl⟩, rfl⟩, e.kind, hkind.trans hk, e.message, hmessage.trans hm,
      e.stage,
      ?_, rfl⟩
    rw [hstage, hs]
    cases e.stage with
    | none => exact .inl ⟨rfl, rfl⟩
    | some t => exact .inr ⟨fun h => (by cases h), t, rfl, rfl⟩

theorem reads_failureObject {r : ToolResult} :
    Reads (.string callId.1) (failureObject fields callId cancelled timedOut) r ↔
      ∃ e, Reports fields e ∧ r = failure callId e cancelled timedOut := by
  set value := failureObject fields callId cancelled timedOut with hvalue
  have hid : value.field "callId" = .string callId.1 := rfl
  have hitems : value.field "contentItems" = .array .plain
    [.object .plain [(js "type", .string (js "text")), (js "text", fields.message)]] := rfl
  have herror : value.field "error" = errorObject fields := rfl
  have hsuccess : value.field "success" = .boolean false := rfl
  have hflag (b : Bool) : (if b then .boolean true else JsValue.undefined).isTrue = b := by
    cases b <;> rfl
  have hcancelled : value.field "cancelled" = if cancelled then .boolean true else .undefined := by
    cases cancelled <;> cases timedOut <;> rfl
  have htimedOut : value.field "timedOut" = if timedOut then .boolean true else .undefined := by
    cases cancelled <;> cases timedOut <;> rfl
  have hother (name : String) (h : name ∈ ["structured", "completedAtMs", "durationMs"]) :
      value.field name = .undefined := by
    simp only [List.mem_cons, List.not_mem_nil, or_false] at h
    obtain rfl | rfl | rfl := h <;> cases cancelled <;> cases timedOut <;> rfl
  have hreads {e : ResultError} (he : Reports fields e) :
      Reads (.string callId.1) value (failure callId e cancelled timedOut) := {
      serializable := failureObject_serializable he
      object := ⟨.plain, _, rfl⟩
      callId := by rw [hid]; exact nonEmptyString_eq_ok_iff.2 rfl
      success := by rw [hsuccess]; rfl
      contentItems := by
        rw [hitems]
        refine ⟨_, rfl, .cons ⟨⟨.plain, _, rfl⟩, ?_⟩ .nil⟩
        rw [he.message]
        rfl
      structured := by rw [hother _ (by simp)]; rfl
      error := by
        rw [herror]
        exact unlessUndefined_eq_ok_iff.2
          (.inr ⟨nofun, e, normalizeResultError_errorObject.2 he, rfl⟩)
      completedAtMs := by rw [hother _ (by simp)]; rfl
      durationMs := by rw [hother _ (by simp)]; rfl
      cancelled := by rw [hcancelled, hflag]; rfl
      timedOut := by rw [htimedOut, hflag]; rfl }
  constructor
  · intro h
    -- The value has an error, and with it all of the result is fixed.
    have he := h.error
    rw [herror] at he
    obtain ⟨hnone, -⟩ | ⟨-, e, he, -⟩ := unlessUndefined_eq_ok_iff.1 he
    · exact absurd hnone nofun
    · have hreports := normalizeResultError_errorObject.1 he
      exact ⟨e, hreports, h.unique (hreads hreports)⟩
  · rintro ⟨e, he, rfl⟩
    exact hreads he

end

/-- A failure that is rendered is within the bounds of failures. -/
def FailureFits (numeral : ℚ → JsText) (bounds : Bounds) (callId : NonEmptyText) (e : ResultError)
    (cancelled timedOut : Bool) : Prop :=
  Within numeral (failureResultBounds bounds) (failure callId e cancelled timedOut)

theorem failureResult_eq_ok_iff {numeral : ℚ → JsText} {bounds : Bounds} {callId : NonEmptyText}
    {cancelled timedOut : Bool} {r : ToolResult} :
    failureResult numeral fields bounds callId cancelled timedOut = .ok r ↔
      ∃ e, Reports fields e ∧ r = failure callId e cancelled timedOut ∧
        FailureFits numeral bounds callId e cancelled timedOut := by
  rw [failureResult, normalizeToolResult_eq_ok_iff, reads_failureObject]
  constructor
  · rintro ⟨⟨e, he, rfl⟩, hfits⟩
    exact ⟨e, he, rfl, hfits⟩
  · rintro ⟨e, he, rfl, hfits⟩
    exact ⟨⟨e, he, rfl⟩, hfits⟩

end Tool

end WasmHost

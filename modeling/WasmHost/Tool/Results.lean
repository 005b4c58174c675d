import WasmHost.Tool.Protocol

/-!
# Results of tools

What `normalizeToolResult` accepts and what it makes of it (`normalizeToolResult_eq_ok_iff`): the
value names the parts of the result (`Reads`), and the result is within the bounds (`Within`). The
JSON of a result names its parts (`reads_toJson`), so a result that was accepted is accepted again
and is its own normal form under all bounds that it is within.
-/

namespace WasmHost

open List

namespace Tool

/-! ### The fields of JSON objects -/

theorem field_toValue (fields : List (JsText × Json)) (name : String) :
    (Json.object fields).toValue.field name =
      ((fields.lookup (js name)).map Json.toValue).getD .undefined := by
  have hlookup : ∀ l : List (JsText × Json),
      (toValueFields l).lookup (js name) = (l.lookup (js name)).map Json.toValue := by
    intro l
    induction l with
    | nil => rfl
    | cons field l ih =>
      obtain ⟨key, value⟩ := field
      simp only [toValueFields, toValueField, lookup_cons, ih]
      cases js name == key <;> rfl
  simp only [Json.toValue, JsValue.field, hlookup]

@[simp]
theorem lookup_field (name key : JsText) (value : Json) (fields : List (JsText × Json)) :
    ((key, value) :: fields).lookup name =
      if name = key then some value else fields.lookup name := by
  by_cases h : name = key
  · simp [h]
  · simp [lookup_cons, beq_eq_false_iff_ne.2 h, h]

@[simp]
theorem lookup_optionalField (name : JsText) (key : String) (value : Option Json) :
    (optionalField key value).lookup name = if name = js key then value else none := by
  cases value <;> simp [optionalField]

@[simp]
theorem lookup_flagField (name : JsText) (key : String) (flag : Bool) :
    (flagField key flag).lookup name =
      if name = js key ∧ flag then some (.boolean true) else none := by
  cases flag <;> simp [flagField]

theorem toValueItems_eq_map (l : List Json) : toValueItems l = l.map Json.toValue := by
  induction l with
  | nil => rfl
  | cons item l ih => simp [toValueItems, ih]

theorem Json.toValue_ne_undefined (j : Json) : j.toValue ≠ .undefined := by
  cases j <;> simp [Json.toValue]

/-- A field that is there if it has a value is read as that value. -/
theorem unlessUndefined_toValue {α : Type} (o : Option α) {toJson : α → Json}
    {read : JsValue → Except ShapeError α} (h : ∀ a, read (toJson a).toValue = .ok a) :
    unlessUndefined ((o.map (Json.toValue ∘ toJson)).getD .undefined) read = .ok o := by
  cases o with
  | none => rfl
  | some a =>
    have hne := (toJson a).toValue_ne_undefined
    simp only [Option.map_some, Option.getD_some, Function.comp_apply, unlessUndefined, h]
    rfl

@[simp]
theorem nonEmptyString_textJson (t : NonEmptyText) (field : String) (stage : Stage) :
    nonEmptyString (textJson t).toValue field stage = .ok t := by
  simp [nonEmptyString, textJson, Json.toValue, stringParam, Except.bind, t.2]

@[simp]
theorem unlessUndefined_textJson (o : Option NonEmptyText) (field : String) (stage : Stage) :
    unlessUndefined ((o.map (Json.toValue ∘ textJson)).getD .undefined)
      (fun v => nonEmptyString v field stage) = .ok o :=
  unlessUndefined_toValue o fun t => nonEmptyString_textJson t field stage

@[simp]
theorem unlessUndefined_string (o : Option JsText) (field : String) (stage : Stage) :
    unlessUndefined ((o.map (Json.toValue ∘ Json.string)).getD .undefined)
      (fun v => stringParam v field stage) = .ok o :=
  unlessUndefined_toValue o fun _ => rfl

@[simp]
theorem unlessUndefined_number (o : Option ℚ) (field : String) (stage : Stage) :
    unlessUndefined ((o.map (Json.toValue ∘ Json.number)).getD .undefined)
      (fun v => numberParam v field stage) = .ok o :=
  unlessUndefined_toValue o fun _ => rfl

@[simp]
theorem unlessUndefined_cloneJson (o : Option Json) :
    unlessUndefined ((o.map Json.toValue).getD .undefined) cloneJson = .ok o :=
  unlessUndefined_toValue o assertJsonSerializable_toValue

/-! ### Items and errors -/

theorem readContentItem_toJson (c : ContentItem) : readContentItem c.toJson.toValue = .ok c := by
  cases c with
  | text t mimeType =>
    have htype :
        (ContentItem.text t mimeType).toJson.toValue.field "type" = .string (js "text") := by
      rw [ContentItem.toJson, field_toValue]; rfl
    have htext : (ContentItem.text t mimeType).toJson.toValue.field "text" = .string t := by
      rw [ContentItem.toJson, field_toValue]; rfl
    have hmime : (ContentItem.text t mimeType).toJson.toValue.field "mimeType" =
        (mimeType.map (Json.toValue ∘ textJson)).getD .undefined := by
      rw [ContentItem.toJson, field_toValue]
      simp +decide
    rw [readContentItem, if_pos (show JsValue.IsText _ _ from htype), htext, hmime,
      unlessUndefined_textJson]
    rfl
  | json value =>
    have htype : (ContentItem.json value).toJson.toValue.field "type" = .string (js "json") := by
      rw [ContentItem.toJson, field_toValue]; rfl
    have hvalue : (ContentItem.json value).toJson.toValue.field "value" = value.toValue := by
      rw [ContentItem.toJson, field_toValue]; rfl
    rw [readContentItem, if_neg (by rw [htype]; decide),
      if_pos (show JsValue.IsText _ _ from htype), hvalue, cloneJson,
      assertJsonSerializable_toValue]
    rfl
  | image imageUrl mimeType altText =>
    have htype : (ContentItem.image imageUrl mimeType altText).toJson.toValue.field "type" =
        .string (js "image") := by
      rw [ContentItem.toJson, field_toValue]; rfl
    have hurl : (ContentItem.image imageUrl mimeType altText).toJson.toValue.field "imageUrl" =
        (textJson imageUrl).toValue := by
      rw [ContentItem.toJson, field_toValue]; rfl
    have hmime : (ContentItem.image imageUrl mimeType altText).toJson.toValue.field "mimeType" =
        (mimeType.map (Json.toValue ∘ textJson)).getD .undefined := by
      rw [ContentItem.toJson, field_toValue]
      simp +decide [lookup_append]
    have halt : (ContentItem.image imageUrl mimeType altText).toJson.toValue.field "altText" =
        (altText.map (Json.toValue ∘ Json.string)).getD .undefined := by
      rw [ContentItem.toJson, field_toValue]
      simp +decide [lookup_append]
    rw [readContentItem, if_neg (by rw [htype]; decide), if_neg (by rw [htype]; decide),
      if_pos (show JsValue.IsText _ _ from htype), hurl, hmime, halt, nonEmptyString_textJson,
      unlessUndefined_textJson,
      unlessUndefined_string]
    rfl

theorem normalizeResultError_toJson (e : ResultError) :
    normalizeResultError e.toJson.toValue = .ok e := by
  have hkind : e.toJson.toValue.field "kind" = (textJson e.kind).toValue := by
    rw [ResultError.toJson, field_toValue]; rfl
  have hmessage : e.toJson.toValue.field "message" = (textJson e.message).toValue := by
    rw [ResultError.toJson, field_toValue]; rfl
  have hstage : e.toJson.toValue.field "stage" =
      (e.stage.map (Json.toValue ∘ textJson)).getD .undefined := by
    rw [ResultError.toJson, field_toValue]
    simp +decide
  have hobject : objectParam e.toJson.toValue
      (.of "browser tool result errors must be objects") = .ok e.toJson.toValue := rfl
  rw [normalizeResultError, hobject]
  change (nonEmptyString (e.toJson.toValue.field "kind") _ _).bind _ = _
  rw [hkind, nonEmptyString_textJson]
  rw [hmessage, nonEmptyString_textJson]
  rw [hstage, unlessUndefined_textJson]
  rfl

@[simp]
theorem unlessUndefined_resultError (o : Option ResultError) :
    unlessUndefined ((o.map (Json.toValue ∘ ResultError.toJson)).getD .undefined)
      normalizeResultError = .ok o :=
  unlessUndefined_toValue o normalizeResultError_toJson

section

variable {numeral : ℚ → JsText} {bounds : Bounds} {callId : JsValue}

theorem assertJsonByteLength_eq_ok_iff {j : Json} {maxBytes : ℕ+} {error : ShapeError}
    {u : Unit} : assertJsonByteLength numeral j maxBytes error = .ok u ↔
      jsonByteLength numeral j ≤ maxBytes := by
  unfold assertJsonByteLength
  split <;> simp_all

variable {value : JsValue} {r : ToolResult}

theorem objectParam_eq_ok_iff {v : JsValue} {message : NonEmptyText} :
    objectParam value message = .ok v ↔
      (∃ kind fields, value = .object kind fields) ∧ v = value := by
  cases value <;> simp [objectParam, eq_comm]

theorem normalizeContentItem_eq_ok_iff {item : JsValue} {c : ContentItem} :
    normalizeContentItem numeral bounds item = .ok c ↔
      (∃ kind fields, item = .object kind fields) ∧ readContentItem item = .ok c ∧
        jsonByteLength numeral c.toJson ≤ bounds.maxItemBytes := by
  simp only [normalizeContentItem, bind, pure, Except.pure, Except.bind_eq_ok_iff,
    objectParam_eq_ok_iff, assertJsonByteLength_eq_ok_iff, Except.ok.injEq]
  constructor
  · rintro ⟨_, ⟨hobject, rfl⟩, _, hread, _, hbytes, rfl⟩
    exact ⟨hobject, hread, hbytes⟩
  · rintro ⟨hobject, hread, hbytes⟩
    exact ⟨item, ⟨hobject, rfl⟩, c, hread, (), hbytes, rfl⟩

variable (numeral bounds) in
/-- The result is within the bounds. -/
def Within (r : ToolResult) : Prop :=
  r.contentItems.length ≤ bounds.maxContentItems ∧
    (∀ c ∈ r.contentItems, jsonByteLength numeral c.toJson ≤ bounds.maxItemBytes) ∧
    jsonByteLength numeral r.toJson ≤ bounds.maxResultBytes

/-- The value is JSON, and its fields are the parts of the result. The id may be left to the call
that the result is for. -/
structure Reads (callId : JsValue) (value : JsValue) (r : ToolResult) : Prop where
  serializable : ∃ j, assertJsonSerializable value = .ok j
  object : ∃ kind fields, value = .object kind fields
  callId : nonEmptyString ((value.field "callId").orElse callId) "callId" .result = .ok r.callId
  success : booleanParam ((value.field "success").orElse (.boolean true)) "success" .result =
    .ok r.success
  contentItems : ∃ items, arrayParam ((value.field "contentItems").orElse (.array .plain []))
      (.of "browser tool result contentItems must be an array") = .ok items ∧
    List.Forall₂ (fun item c => (∃ kind fields, item = .object kind fields) ∧
      readContentItem item = .ok c) items r.contentItems
  structured : unlessUndefined (value.field "structured") cloneJson = .ok r.structured
  error : unlessUndefined (value.field "error") normalizeResultError = .ok r.error
  completedAtMs : unlessUndefined (value.field "completedAtMs") (fun v =>
    numberParam v "completedAtMs" .result) = .ok r.completedAtMs
  durationMs : unlessUndefined (value.field "durationMs") (fun v =>
    numberParam v "durationMs" .result) = .ok r.durationMs
  cancelled : (value.field "cancelled").isTrue = r.cancelled
  timedOut : (value.field "timedOut").isTrue = r.timedOut

/-- What a value is read as is all there is in it. -/
theorem Reads.unique {r' : ToolResult} (h : Reads callId value r) (h' : Reads callId value r') :
    r = r' := by
  have hid := Except.ok.inj (h.callId.symm.trans h'.callId)
  have hsuccess := Except.ok.inj (h.success.symm.trans h'.success)
  have hitems : r.contentItems = r'.contentItems := by
    obtain ⟨items, hi, hall⟩ := h.contentItems
    obtain ⟨items', hi', hall'⟩ := h'.contentItems
    obtain rfl := Except.ok.inj (hi.symm.trans hi')
    refine right_unique_forall₂' ?_ hall hall'
    intro item c c' hc hc'
    exact Except.ok.inj (hc.2.symm.trans hc'.2)
  have hstructured := Except.ok.inj (h.structured.symm.trans h'.structured)
  have herror := Except.ok.inj (h.error.symm.trans h'.error)
  have hcompleted := Except.ok.inj (h.completedAtMs.symm.trans h'.completedAtMs)
  have hduration := Except.ok.inj (h.durationMs.symm.trans h'.durationMs)
  have hcancelled := h.cancelled.symm.trans h'.cancelled
  have htimedOut := h.timedOut.symm.trans h'.timedOut
  obtain ⟨⟩ := r
  obtain ⟨⟩ := r'
  simp_all

theorem forall₂_and_right {α β : Type} {R : α → β → Prop} {p : β → Prop} {as : List α}
    {bs : List β} : List.Forall₂ (fun a b => R a b ∧ p b) as bs ↔
      List.Forall₂ R as bs ∧ ∀ b ∈ bs, p b := by
  induction as generalizing bs with
  | nil => cases bs <;> simp
  | cons a as ih =>
    cases bs with
    | nil => simp
    | cons => simp only [List.forall₂_cons, ih, forall_mem_cons]; tauto

theorem mapM_normalizeContentItem {items : List JsValue} {cs : List ContentItem} :
    items.mapM (normalizeContentItem numeral bounds) = .ok cs ↔
      List.Forall₂ (fun item c => (∃ kind fields, item = .object kind fields) ∧
        readContentItem item = .ok c) items cs ∧
      ∀ c ∈ cs, jsonByteLength numeral c.toJson ≤ bounds.maxItemBytes := by
  rw [Except.mapM_eq_ok_iff, ← forall₂_and_right]
  simp only [normalizeContentItem_eq_ok_iff, and_assoc]

theorem normalizeToolResult_eq_ok_iff :
    normalizeToolResult numeral bounds callId value = .ok r ↔
      Reads callId value r ∧ Within numeral bounds r := by
  simp only [normalizeToolResult, bind, pure, Except.pure, Except.bind_eq_ok_iff,
    objectParam_eq_ok_iff]
  constructor
  · rintro ⟨j, hj, _, ⟨hobject, rfl⟩, id, hid, success, hsuccess, items, hitems, cs, hcs, hrest⟩
    have hcount : ¬ bounds.maxContentItems < cs.length := by
      intro h
      rw [if_pos h] at hrest
      cases hrest
    rw [if_neg hcount] at hrest
    simp only [Except.bind_eq_ok_iff, assertJsonByteLength_eq_ok_iff, Except.ok.injEq] at hrest
    obtain ⟨structured, hs, error, he, completed, hc, duration, hd, _, hbytes, rfl⟩ := hrest
    obtain ⟨hread, hitem⟩ := mapM_normalizeContentItem.1 hcs
    exact ⟨⟨⟨j, hj⟩, hobject, hid, hsuccess, ⟨items, hitems, hread⟩, hs, he, hc, hd, rfl, rfl⟩,
      not_lt.1 hcount, hitem, hbytes⟩
  · rintro ⟨⟨⟨j, hj⟩, hobject, hid, hsuccess, ⟨items, hitems, hread⟩, hs, he, hc, hd, h1, h2⟩,
      hcount, hitem, hbytes⟩
    refine ⟨j, hj, value, ⟨hobject, rfl⟩, _, hid, _, hsuccess, items, hitems, _,
      mapM_normalizeContentItem.2 ⟨hread, hitem⟩, ?_⟩
    rw [if_neg (not_lt.2 hcount)]
    simp only [Except.bind_eq_ok_iff, assertJsonByteLength_eq_ok_iff, Except.ok.injEq]
    obtain ⟨id, success, cs, structured, error, completed, duration, cancelled, timedOut⟩ := r
    subst h1 h2
    exact ⟨_, hs, _, he, _, hc, _, hd, (), hbytes, rfl⟩

/-- The JSON of a result names its parts, whatever the id of the call. -/
theorem reads_toJson (callId : JsValue) (r : ToolResult) : Reads callId r.toJson.toValue r where
  serializable := ⟨_, assertJsonSerializable_toValue _⟩
  object := ⟨.plain, _, rfl⟩
  callId := by
    have hid : r.toJson.toValue.field "callId" = (textJson r.callId).toValue := by
      rw [ToolResult.toJson, field_toValue]; rfl
    rw [hid]
    exact nonEmptyString_textJson r.callId "callId" .result
  success := by
    have hsuccess : r.toJson.toValue.field "success" = .boolean r.success := by
      rw [ToolResult.toJson, field_toValue]; rfl
    rw [hsuccess]
    rfl
  contentItems := by
    have hitems : r.toJson.toValue.field "contentItems" =
        .array .plain (r.contentItems.map fun c => c.toJson.toValue) := by
      rw [ToolResult.toJson, field_toValue]
      simp +decide [Json.toValue, toValueItems_eq_map]
    rw [hitems]
    refine ⟨_, rfl, ?_⟩
    rw [List.forall₂_map_left_iff, List.forall₂_same]
    intro c hc
    refine ⟨?_, readContentItem_toJson c⟩
    cases c <;> exact ⟨.plain, _, rfl⟩
  structured := by
    rw [ToolResult.toJson, field_toValue]
    simp +decide [lookup_append]
  error := by
    rw [ToolResult.toJson, field_toValue]
    simp +decide [lookup_append]
  completedAtMs := by
    rw [ToolResult.toJson, field_toValue]
    simp +decide [lookup_append]
  durationMs := by
    rw [ToolResult.toJson, field_toValue]
    simp +decide [lookup_append]
  cancelled := by
    rw [ToolResult.toJson, field_toValue]
    simp +decide [lookup_append]
    cases r.cancelled <;> rfl
  timedOut := by
    rw [ToolResult.toJson, field_toValue]
    simp +decide [lookup_append]
    cases r.timedOut <;> rfl

/-- A result that is within bounds is its own normal form under them. -/
theorem normalizeToolResult_toJson (h : Within numeral bounds r) (callId : JsValue) :
    normalizeToolResult numeral bounds callId r.toJson.toValue = .ok r :=
  normalizeToolResult_eq_ok_iff.2 ⟨reads_toJson callId r, h⟩

theorem Within.mono {wider : Bounds} (h : Within numeral bounds r)
    (hcount : bounds.maxContentItems ≤ wider.maxContentItems)
    (hitem : bounds.maxItemBytes ≤ wider.maxItemBytes)
    (hresult : bounds.maxResultBytes ≤ wider.maxResultBytes) : Within numeral wider r :=
  ⟨h.1.trans hcount, fun c hc => (h.2.1 c hc).trans hitem, h.2.2.trans hresult⟩

end

end Tool

end WasmHost

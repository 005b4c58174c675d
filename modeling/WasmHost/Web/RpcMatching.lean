import WasmHost.Lib.Run
import WasmHost.Web.RpcClient

/-!
# Promises of the JSON-RPC client

Every promise that a call of the client returns is noted, with what becomes of it.

* `RpcRun.matched_of_careful`: in a run whose events are careful, a request ends at most once, by
  the first result or error with its id or with the socket; a waiter is resolved only by a
  notification that it waits for; and nothing is left pending once the client is closed.
* `RpcRun.not_matched_closed`: a waiter may be left pending by a client that is closed, and a
  request be ended by a request of the server.
-/

namespace WasmHost

open OrdMap List Tool RpcClient

/-- What a promise is for. -/
inductive PromiseOrigin
  | request (id : ℕ)
  | waiter (method : JsValue) (predicate : Predicate)

/-- The message is a result or an error. -/
def IsAnswer (message : RpcMessage) : Prop :=
  hasOwn message "result" = true ∨ hasOwn message "error" = true

/-- The fields of the message decide it. -/
instance (message : RpcMessage) : Decidable (IsAnswer message) :=
  inferInstanceAs (Decidable (_ ∨ _))

/-- The message that a frame with the id of a request is. -/
def ClientEvent.responseTo (id : ℕ) : ClientEvent → Option RpcMessage
  | .frame data =>
    match frameMessage data with
    | .ok message =>
      if hasOwn message "id" = true ∧ requestKey (fieldOf message "id") = some id then some message
      else none
    | .error _ => none
  | _ => none

/-- The result or error with the id of a request that an event is. -/
def ClientEvent.answerTo (id : ℕ) (event : ClientEvent) : Option RpcMessage :=
  (event.responseTo id).filter fun message => IsAnswer message

/-- The event at which a promise was resolved or rejected. `answers` is how many answers there had
been to the request by then, this one included. -/
structure PromiseEnd where
  event : ClientEvent
  answers : ℕ
  outcome : RpcOutcome

/-- What is known of a promise that a call returned. -/
structure PromiseNote where
  promise : ℕ
  origin : PromiseOrigin
  answers : ℕ
  ends : List PromiseEnd

/-- A close of the client or of its socket, or an error of the socket. -/
def ClientEvent.EndsAll : ClientEvent → Prop
  | .close | .socketClose _ _ _ | .socketError _ _ => True
  | _ => False

/-- The end is one that the promise may have. -/
def PromiseEnd.Right (received : List RpcMessage) (e : PromiseEnd) : PromiseOrigin → Prop
  | .request id =>
    (∃ message, e.event.answerTo id = some message ∧ e.answers = 1 ∧
      e.outcome = RpcClient.responseOutcome message) ∨
    (e.event.EndsAll ∧ ∃ error, e.outcome = .rejected error)
  | .waiter method predicate =>
    (∃ message ∈ received, e.outcome = .notification message ∧
      (∃ text, methodOf message = some text ∧ method = .string text) ∧
      predicate message = .ok true) ∨
    ∃ error, e.outcome = .rejected error

namespace PromiseNote

/-- The answers to a promise after an event. -/
def answersAfter (note : PromiseNote) (event : ClientEvent) : ℕ :=
  match note.origin with
  | .request id => note.answers + (event.answerTo id).toList.length
  | .waiter _ _ => note.answers

/-- The note after an event that settles some promises. -/
def after (note : PromiseNote) (event : ClientEvent) (settled : List (ℕ × RpcOutcome)) :
    PromiseNote where
  promise := note.promise
  origin := note.origin
  answers := note.answersAfter event
  ends := note.ends ++
    (settled.filter fun settlement => settlement.1 = note.promise).map fun settlement =>
      ⟨event, note.answersAfter event, settlement.2⟩

end PromiseNote

/-- A client with the notes of its promises. -/
structure RpcRun where
  client : RpcClient
  notes : List PromiseNote

namespace RpcRun

variable (r : RpcRun) (texts : TextForms)

def start (client : RpcClient) : RpcRun := ⟨client, []⟩

/-- What a promise is for that is returned at an event. -/
def originOf : ClientEvent → Option PromiseOrigin
  | .request _ _ _ => some (.request r.client.requestId)
  | .wait method options => some (.waiter method options.predicate)
  | _ => none

/-- The note of the promise that is returned at an event. -/
def noteOf (event : ClientEvent) : Option PromiseNote :=
  match (r.client.react texts event).returned, r.originOf event with
  | .ok (some promise), some origin => some ⟨promise, origin, 0, []⟩
  | _, _ => none

/-- The run behind an event. -/
def step (event : ClientEvent) : RpcRun where
  client := (r.client.react texts event).client
  notes := (r.notes ++ (r.noteOf texts event).toList).map fun note =>
    note.after event (r.client.react texts event).settled

/-- Promises end at most once and in the way that they may, and the promises of a closed client have
ended. -/
structure Matched : Prop where
  once : ∀ note ∈ r.notes, note.ends.length ≤ 1
  right : ∀ note ∈ r.notes, ∀ e ∈ note.ends, e.Right r.client.notifications note.origin
  closed : r.client.closed = true → ∀ note ∈ r.notes, note.ends ≠ []

/-- The events that the client is made for: nothing is waited for when it is closed, ids are not
reused while they are in use, a frame with the id of a pending request is an answer to it whose
error can be made, and no timeout ends whose method has no text. -/
def Careful : ClientEvent → Prop
  | .wait method options =>
    r.client.closed = true → r.client.findExisting method options ≠ .ok none
  | .request method params _ =>
    r.client.assertOpen = .ok () → (∃ message, jsonRpcMessage method params none = .ok message) →
      r.client.pending.has r.client.requestId = false
  | .timeout promise => ∀ waiter ∈ r.client.waiters, waiter.promise = promise →
      waiter.timed = true → (texts.template waiter.method).isOk = true
  | .frame data => ∀ id message, r.client.pending.has id = true →
      (ClientEvent.frame data).responseTo id = some message →
        IsAnswer message ∧ responseReadable texts message = true
  | _ => True

end RpcRun

/-! ### What the notes say -/

theorem RpcClient.mem_openPromises (c : RpcClient) (p : ℕ) :
    p ∈ c.openPromises ↔
      (∃ id, c.pending.get id = some p) ∨ ∃ waiter ∈ c.waiters, waiter.promise = p := by
  rw [openPromises, mem_append, mem_values, mem_map]

theorem PromiseEnd.Right.mono {received received' : List RpcMessage} {e : PromiseEnd}
    {origin : PromiseOrigin} (hsub : received ⊆ received') (h : e.Right received origin) :
    e.Right received' origin := by
  cases origin with
  | request => exact h
  | waiter =>
    obtain ⟨message, hmem, hrest⟩ | hrejected := h
    · exact .inl ⟨message, hsub hmem, hrest⟩
    · exact .inr hrejected

/-- A promise that is settled once in a list of settlements. -/
theorem length_filter_promise {settled : List (ℕ × RpcOutcome)} (h : (settled.map Prod.fst).Nodup)
    (p : ℕ) : (settled.filter fun settlement => settlement.1 = p).length ≤ 1 := by
  have hcount := nodup_iff_count_le_one.1 h p
  rw [List.count, countP_map] at hcount
  rw [← countP_eq_length_filter]
  refine le_trans (le_of_eq (countP_congr fun settlement _ => ?_)) hcount
  simp

theorem PromiseNote.ends_after_eq_nil_iff (note : PromiseNote) (event : ClientEvent)
    (settled : List (ℕ × RpcOutcome)) :
    (note.after event settled).ends = [] ↔
      note.ends = [] ∧ note.promise ∉ settled.map Prod.fst := by
  simp only [after, append_eq_nil_iff, map_eq_nil_iff, filter_eq_nil_iff,
    decide_eq_true_eq, mem_map, not_exists, not_and]

namespace RpcRun

/-- The notes agree with the tables of the client, and the promises have ended as they may. -/
structure Sound (r : RpcRun) : Prop where
  fresh : ∀ note ∈ r.notes, note.promise < r.client.promises
  distinct : (r.notes.map PromiseNote.promise).Nodup
  waiting : (r.client.waiters.map RpcWaiter.promise).Nodup
  open_iff : ∀ note ∈ r.notes, note.promise ∈ r.client.openPromises ↔ note.ends = []
  pending : ∀ id p, r.client.pending.get id = some p →
    ∃ note ∈ r.notes, note.promise = p ∧ note.origin = .request id
  waiters : ∀ waiter ∈ r.client.waiters, ∃ note ∈ r.notes, note.promise = waiter.promise ∧
    note.origin = .waiter waiter.method waiter.predicate
  unanswered : ∀ note ∈ r.notes, note.ends = [] → note.answers = 0
  told : r.client.telling ⊆ r.client.notifications
  closed : r.client.closed = true → r.client.openPromises = []
  once : ∀ note ∈ r.notes, note.ends.length ≤ 1
  right : ∀ note ∈ r.notes, ∀ e ∈ note.ends, e.Right r.client.notifications note.origin

namespace Sound

variable {r : RpcRun} {id : ℕ}

theorem matched (h : r.Sound) : r.Matched where
  once := h.once
  right := h.right
  closed := by
    intro hclosed note hnote hends
    have hopen := (h.open_iff note hnote).2 hends
    rw [h.closed hclosed] at hopen
    exact absurd hopen not_mem_nil

theorem of_start (client : RpcClient) (hpending : client.pending = OrdMap.empty)
    (hwaiters : client.waiters = []) (htelling : client.telling = []) : (start client).Sound where
  fresh := nofun
  distinct := nodup_nil
  waiting := by
    show (client.waiters.map _).Nodup
    rw [hwaiters]
    exact nodup_nil
  open_iff := nofun
  pending := by
    intro id p h
    have h' : client.pending.get id = some p := h
    rw [hpending] at h'
    exact absurd h' nofun
  waiters := by
    intro waiter h
    have h' : waiter ∈ client.waiters := h
    rw [hwaiters] at h'
    exact absurd h' not_mem_nil
  unanswered := nofun
  told := by
    show client.telling ⊆ _
    rw [htelling]
    exact nil_subset _
  closed := by
    intro _
    show client.pending.values ++ client.waiters.map _ = []
    rw [hpending, hwaiters]
    rfl
  once := nofun
  right := nofun

variable {note : PromiseNote}

/-- Two notes of one promise are one. -/
theorem note_unique (h : r.Sound) {note' : PromiseNote} (hnote : note ∈ r.notes)
    (hnote' : note' ∈ r.notes) (heq : note.promise = note'.promise) : note = note' :=
  inj_on_of_nodup_map h.distinct hnote hnote' heq

theorem open_fresh (h : r.Sound) {p : ℕ} (hp : p ∈ r.client.openPromises) :
    p < r.client.promises := by
  obtain ⟨id, hget⟩ | ⟨waiter, hwaiter, rfl⟩ := (r.client.mem_openPromises p).1 hp
  · obtain ⟨note, hnote, rfl, -⟩ := h.pending id p hget
    exact h.fresh note hnote
  · obtain ⟨note, hnote, hpromise, -⟩ := h.waiters waiter hwaiter
    exact hpromise ▸ h.fresh note hnote

/-- A request that has not ended is pending under its id. -/
theorem pending_get (h : r.Sound) (hnote : note ∈ r.notes) (horigin : note.origin = .request id)
    (hends : note.ends = []) : r.client.pending.get id = some note.promise := by
  have hopen := (h.open_iff note hnote).2 hends
  obtain ⟨id', hget⟩ | ⟨waiter, hwaiter, hpromise⟩ := (r.client.mem_openPromises _).1 hopen
  · obtain ⟨note', hnote', hpromise, horigin'⟩ := h.pending id' _ hget
    obtain rfl := h.note_unique hnote' hnote hpromise
    obtain rfl : id' = id := PromiseOrigin.request.inj (horigin'.symm.trans horigin)
    exact hget
  · obtain ⟨note', hnote', hpromise', horigin'⟩ := h.waiters waiter hwaiter
    obtain rfl := h.note_unique hnote' hnote (hpromise'.trans hpromise)
    exact absurd (horigin'.symm.trans horigin) nofun

/-- The note of a pending request. -/
theorem origin_of_pending (h : r.Sound) (hnote : note ∈ r.notes)
    (hget : r.client.pending.get id = some note.promise) :
    note.origin = .request id ∧ note.ends = [] := by
  obtain ⟨note', hnote', hpromise, horigin⟩ := h.pending id _ hget
  obtain rfl := h.note_unique hnote' hnote hpromise
  exact ⟨horigin, (h.open_iff _ hnote).1 ((r.client.mem_openPromises _).2 (.inl ⟨id, hget⟩))⟩

theorem origin_of_waiter (h : r.Sound) {waiter : RpcWaiter} (hwaiter : waiter ∈ r.client.waiters)
    (hnote : note ∈ r.notes) (hpromise : note.promise = waiter.promise) :
    note.origin = .waiter waiter.method waiter.predicate := by
  obtain ⟨note', hnote', hpromise', horigin⟩ := h.waiters waiter hwaiter
  obtain rfl := h.note_unique hnote' hnote (hpromise'.trans hpromise.symm)
  exact horigin

/-- No promise is open twice. -/
theorem open_nodup (h : r.Sound) : r.client.openPromises.Nodup := by
  refine List.Nodup.append ?_ h.waiting ?_
  · refine List.Nodup.map_on ?_ (List.Nodup.of_map _ r.client.pending.nodup)
    rintro ⟨id, p⟩ hmem ⟨id', p'⟩ hmem' rfl
    rw [mem_entries] at hmem hmem'
    obtain ⟨note, hnote, hpromise, horigin⟩ := h.pending id p hmem
    obtain ⟨note', hnote', hpromise', horigin'⟩ := h.pending id' p hmem'
    obtain rfl := h.note_unique hnote hnote' (hpromise.trans hpromise'.symm)
    obtain rfl : id = id' := PromiseOrigin.request.inj (horigin.symm.trans horigin')
    rfl
  · intro p hpending hwaiting
    obtain ⟨id, hget⟩ := (mem_values _ _).1 hpending
    obtain ⟨waiter, hwaiter, rfl⟩ := mem_map.1 hwaiting
    obtain ⟨note, hnote, hpromise, horigin⟩ := h.pending id _ hget
    exact absurd ((h.origin_of_waiter hwaiter hnote hpromise).symm.trans horigin) nofun

end Sound

/-! ### One event -/

/-- What an event has to leave of the tables for the notes to agree with them again. -/
structure Books (r : RpcRun) (texts : TextForms) (event : ClientEvent) : Prop where
  noted : ∀ note ∈ r.noteOf texts event, note.promise = r.client.promises
  promises : r.client.promises + (r.noteOf texts event).toList.length ≤
    (r.client.react texts event).client.promises
  settled : ((r.client.react texts event).settled.map Prod.fst).Nodup
  open_iff : ∀ p, p ∈ (r.client.react texts event).client.openPromises ↔
    (p ∈ r.client.openPromises ∨ p ∈ (r.noteOf texts event).map PromiseNote.promise) ∧
      p ∉ (r.client.react texts event).settled.map Prod.fst
  settled_open : ∀ p ∈ (r.client.react texts event).settled.map Prod.fst,
    p ∈ r.client.openPromises ∨ p ∈ (r.noteOf texts event).map PromiseNote.promise
  waiting : ((r.client.react texts event).client.waiters.map RpcWaiter.promise).Nodup
  pending : ∀ id p, (r.client.react texts event).client.pending.get id = some p →
    r.client.pending.get id = some p ∨
      ∃ note ∈ r.noteOf texts event, note.promise = p ∧ note.origin = .request id
  waiters : ∀ waiter ∈ (r.client.react texts event).client.waiters, waiter ∈ r.client.waiters ∨
    ∃ note ∈ r.noteOf texts event, note.promise = waiter.promise ∧
      note.origin = .waiter waiter.method waiter.predicate
  answered : ∀ note ∈ r.notes, note.ends = [] →
    note.promise ∉ (r.client.react texts event).settled.map Prod.fst → note.answersAfter event = 0
  told : (r.client.react texts event).client.telling ⊆
    (r.client.react texts event).client.notifications
  kept : r.client.notifications ⊆ (r.client.react texts event).client.notifications
  closed : (r.client.react texts event).client.closed = true →
    (r.client.react texts event).client.openPromises = []
  right : ∀ note ∈ r.notes ++ (r.noteOf texts event).toList, note.ends = [] →
    ∀ settlement ∈ (r.client.react texts event).settled, settlement.1 = note.promise →
      PromiseEnd.Right (r.client.react texts event).client.notifications
        ⟨event, note.answersAfter event, settlement.2⟩ note.origin

variable {event : ClientEvent} {r : RpcRun} {texts : TextForms} {note : PromiseNote}

theorem noteOf_ends (h : note ∈ r.noteOf texts event) :
    note.ends = [] ∧ note.answersAfter event = 0 := by
  rw [noteOf] at h
  split at h
  next promise origin hreturned horigin =>
    obtain rfl := (Option.some.inj h).symm
    refine ⟨rfl, ?_⟩
    cases event with
    | request | wait =>
      obtain rfl := (Option.some.inj horigin).symm
      rfl
    | _ => exact absurd horigin nofun
  · exact absurd h nofun

/-- Keeping the books keeps the invariant. -/
theorem Sound.of_books (h : r.Sound) (hb : r.Books texts event) : (r.step texts event).Sound := by
  have hnew : ∀ note ∈ (r.noteOf texts event).toList, note ∈ r.noteOf texts event :=
    fun note hnote => Option.mem_toList.1 hnote
  have hlt : ∀ note ∈ r.notes, note.promise ∉ (r.noteOf texts event).map PromiseNote.promise := by
    intro note hnote hmem
    obtain ⟨note', hnote', heq⟩ := Option.map_eq_some_iff.1 hmem
    have hfresh := h.fresh note hnote
    rw [← heq, hb.noted note' hnote'] at hfresh
    exact absurd hfresh (lt_irrefl _)
  -- a note is of a promise that was open, or is opened, exactly when it has no end yet
  have hopen : ∀ note ∈ r.notes ++ (r.noteOf texts event).toList,
      (note.promise ∈ r.client.openPromises ∨
        note.promise ∈ (r.noteOf texts event).map PromiseNote.promise) ↔ note.ends = [] := by
    intro note hnote
    rcases mem_append.1 hnote with hold | hnew'
    · rw [or_iff_left (hlt note hold)]
      exact h.open_iff note hold
    · exact iff_of_true (.inr (Option.map_eq_some_iff.2 ⟨note, hnew note hnew', rfl⟩))
        (noteOf_ends (hnew note hnew')).1
  have hstays : ∀ note ∈ r.notes ++ (r.noteOf texts event).toList,
      note.promise ∈ (r.client.react texts event).settled.map Prod.fst → note.ends = [] :=
    fun note hnote hsettled => (hopen note hnote).1 (hb.settled_open _ hsettled)
  exact {
    fresh := by
      refine forall_mem_map.2 fun note hnote => ?_
      show note.promise < (r.client.react texts event).client.promises
      rcases mem_append.1 hnote with hold | hnew'
      · exact (h.fresh note hold).trans_le ((Nat.le_add_right _ _).trans hb.promises)
      · rw [hb.noted note (hnew note hnew')]
        have hlength := length_pos_of_mem hnew'
        exact lt_of_lt_of_le (by omega) hb.promises
    distinct := by
      have hmap : (r.step texts event).notes.map PromiseNote.promise =
          (r.notes ++ (r.noteOf texts event).toList).map PromiseNote.promise := by
        rw [step, map_map]
        rfl
      rw [hmap, map_append]
      refine h.distinct.append ?_ ?_
      · cases r.noteOf texts event with
        | none => exact nodup_nil
        | some => exact nodup_singleton _
      · intro p hp hp'
        obtain ⟨note, hnote, rfl⟩ := mem_map.1 hp
        obtain ⟨note', hnote', heq⟩ := mem_map.1 hp'
        exact hlt note hnote (Option.map_eq_some_iff.2 ⟨note', hnew note' hnote', heq⟩)
    waiting := hb.waiting
    open_iff := by
      refine forall_mem_map.2 fun note hnote => ?_
      rw [PromiseNote.ends_after_eq_nil_iff, ← hopen note hnote]
      exact hb.open_iff note.promise
    pending := by
      intro id p hget
      rcases hb.pending id p hget with hold | ⟨note, hnote, hpromise, horigin⟩
      · obtain ⟨note, hnote, hpromise, horigin⟩ := h.pending id p hold
        exact ⟨_, mem_map_of_mem (mem_append_left _ hnote), hpromise, horigin⟩
      · exact ⟨_, mem_map_of_mem (mem_append_right _ (Option.mem_toList.2 hnote)),
          hpromise, horigin⟩
    waiters := by
      intro waiter hwaiter
      rcases hb.waiters waiter hwaiter with hold | ⟨note, hnote, hpromise, horigin⟩
      · obtain ⟨note, hnote, hpromise, horigin⟩ := h.waiters waiter hold
        exact ⟨_, mem_map_of_mem (mem_append_left _ hnote), hpromise, horigin⟩
      · exact ⟨_, mem_map_of_mem (mem_append_right _ (Option.mem_toList.2 hnote)),
          hpromise, horigin⟩
    unanswered := by
      refine forall_mem_map.2 fun note hnote hends => ?_
      obtain ⟨hnone, hunsettled⟩ := (note.ends_after_eq_nil_iff event _).1 hends
      rcases mem_append.1 hnote with hold | hnew'
      · exact hb.answered note hold hnone hunsettled
      · exact (noteOf_ends (hnew note hnew')).2
    told := hb.told
    closed := hb.closed
    once := by
      refine forall_mem_map.2 fun note hnote => ?_
      have hlength := length_filter_promise hb.settled note.promise
      rw [PromiseNote.after, length_append, length_map]
      by_cases hsettled : note.promise ∈ (r.client.react texts event).settled.map Prod.fst
      · rw [hstays note hnote hsettled, length_nil, Nat.zero_add]
        exact hlength
      · have hfilter : ((r.client.react texts event).settled.filter
            fun settlement => settlement.1 = note.promise) = [] :=
          filter_eq_nil_iff.2 fun settlement hmem heq =>
            hsettled (mem_map.2 ⟨settlement, hmem, of_decide_eq_true heq⟩)
        rw [hfilter, length_nil, Nat.add_zero]
        rcases mem_append.1 hnote with hold | hnew'
        · exact h.once note hold
        · rw [(noteOf_ends (hnew note hnew')).1]
          exact Nat.zero_le 1
    right := by
      refine forall_mem_map.2 fun note hnote e he => ?_
      rcases mem_append.1 he with hold | hsettled
      · rcases mem_append.1 hnote with hmem | hnew'
        · exact (h.right note hmem e hold).mono hb.kept
        · rw [(noteOf_ends (hnew note hnew')).1] at hold
          exact absurd hold not_mem_nil
      · obtain ⟨settlement, hmem, rfl⟩ := mem_map.1 hsettled
        obtain ⟨hmem, heq⟩ := mem_filter.1 hmem
        have heq : settlement.1 = note.promise := of_decide_eq_true heq
        have hends := hstays note hnote (mem_map.2 ⟨settlement, hmem, heq⟩)
        exact hb.right note hnote hends settlement hmem heq }

/-! ### Events that settle nothing -/

theorem answersAfter_eq (h : ∀ id, note.origin = .request id → event.answerTo id = none) :
    note.answersAfter event = note.answers := by
  rw [PromiseNote.answersAfter]
  split
  next id horigin =>
    rw [h id horigin]
    rfl
  · rfl

/-- An event that is no frame answers nothing. -/
theorem answersAfter_of_not_frame (note : PromiseNote) (h : ∀ data, event ≠ .frame data) :
    note.answersAfter event = note.answers := by
  refine answersAfter_eq fun id _ => ?_
  cases event with
  | frame data => exact absurd rfl (h data)
  | _ => rfl

theorem responseTo_frame {data : RawMessage} {id : ℕ} {message : RpcMessage}
    (h : (ClientEvent.frame data).responseTo id = some message) :
    frameMessage data = .ok message ∧ hasOwn message "id" = true ∧
      requestKey (fieldOf message "id") = some id := by
  rw [ClientEvent.responseTo] at h
  split at h
  next message' hmessage =>
    split at h
    next hid =>
      obtain rfl := Option.some.inj h
      exact ⟨hmessage, hid⟩
    · exact absurd h nofun
  · exact absurd h nofun

section

variable {r : RpcRun} {texts : TextForms} {next : Reaction} {params : JsValue} {data : RawMessage}

variable {event : ClientEvent} {method : JsValue} {message : RpcMessage}

theorem noteOf_eq_none (h : r.originOf event = none) : r.noteOf texts event = none := by
  rw [noteOf]
  split
  next horigin => exact absurd (h.symm.trans horigin) nofun
  · rfl

/-- An event at which some open promises are settled and their entries go. -/
theorem Books.of_settled (h : r.Sound) (hreact : r.client.react texts event = next)
    (hnote : r.noteOf texts event = none) (hpromises : r.client.promises ≤ next.client.promises)
    (hnodup : (next.settled.map Prod.fst).Nodup)
    (hopen : ∀ p ∈ next.settled.map Prod.fst, p ∈ r.client.openPromises)
    (hpending : ∀ id p, next.client.pending.get id = some p ↔
      r.client.pending.get id = some p ∧ p ∉ next.settled.map Prod.fst)
    (hwaiters : next.client.waiters = r.client.waiters.filter fun waiter =>
      waiter.promise ∉ next.settled.map Prod.fst)
    (htold : next.client.telling ⊆ next.client.notifications)
    (hkept : r.client.notifications ⊆ next.client.notifications)
    (hclosed : next.client.closed = true →
      r.client.closed = true ∨ next.client.openPromises = [])
    (hanswers : ∀ note ∈ r.notes, note.ends = [] → note.promise ∉ next.settled.map Prod.fst →
      note.answersAfter event = note.answers)
    (hright : ∀ note ∈ r.notes, note.ends = [] →
      ∀ settlement ∈ next.settled, settlement.1 = note.promise →
        PromiseEnd.Right next.client.notifications
          ⟨event, note.answersAfter event, settlement.2⟩ note.origin) :
    r.Books texts event := by
  subst hreact
  have hnone : ∀ note, note ∉ r.noteOf texts event := by
    intro note hmem
    rw [hnote] at hmem
    exact absurd hmem nofun
  have hiff : ∀ p, p ∈ (r.client.react texts event).client.openPromises ↔
      p ∈ r.client.openPromises ∧ p ∉ (r.client.react texts event).settled.map Prod.fst := by
    intro p
    rw [mem_openPromises, mem_openPromises, or_and_right]
    refine or_congr ?_ ?_
    · simp only [hpending, exists_and_right]
    · simp only [hwaiters, mem_filter, decide_eq_true_eq]
      constructor
      · rintro ⟨waiter, ⟨hmem, hstays⟩, rfl⟩
        exact ⟨⟨waiter, hmem, rfl⟩, hstays⟩
      · rintro ⟨⟨waiter, hmem, rfl⟩, hstays⟩
        exact ⟨waiter, ⟨hmem, hstays⟩, rfl⟩
  exact {
    noted := fun note hmem => absurd hmem (hnone note)
    promises := by
      rw [hnote]
      exact hpromises
    settled := hnodup
    open_iff := by
      intro p
      rw [hiff, hnote]
      simp
    settled_open := fun p hp => .inl (hopen p hp)
    waiting := by
      rw [hwaiters]
      exact h.waiting.sublist (filter_sublist.map _)
    pending := fun id p hget => .inl ((hpending id p).1 hget).1
    waiters := by
      rw [hwaiters]
      exact fun waiter hwaiter => .inl (mem_of_mem_filter hwaiter)
    answered := fun note hmem hends hstays =>
      (hanswers note hmem hends hstays).trans (h.unanswered note hmem hends)
    told := htold
    kept := hkept
    closed := by
      intro hclosed'
      refine (hclosed hclosed').elim (fun hbefore => ?_) id
      refine eq_nil_iff_forall_not_mem.2 fun p hp => ?_
      have hp' := ((hiff p).1 hp).1
      rw [h.closed hbefore] at hp'
      exact absurd hp' not_mem_nil
    right := by
      rw [hnote]
      intro note hmem
      rw [Option.toList_none, append_nil] at hmem
      exact hright note hmem }

/-- An event that leaves the tables as they are. -/
theorem Books.of_quiet (h : r.Sound) (hreact : r.client.react texts event = next)
    (hsettled : next.settled = []) (hnote : r.noteOf texts event = none)
    (hpending : ∀ id, next.client.pending.get id = r.client.pending.get id)
    (hwaiters : next.client.waiters = r.client.waiters)
    (hpromises : r.client.promises ≤ next.client.promises)
    (hclosed : next.client.closed = r.client.closed)
    (htold : next.client.telling ⊆ next.client.notifications)
    (hkept : r.client.notifications ⊆ next.client.notifications)
    (hanswers : ∀ note ∈ r.notes, note.ends = [] → note.answersAfter event = note.answers) :
    r.Books texts event := by
  refine .of_settled h hreact hnote hpromises ?_ ?_ ?_ ?_ htold hkept
    (fun h => .inl (hclosed ▸ h)) (fun note hmem hends _ => hanswers note hmem hends) ?_ <;>
    rw [hsettled]
  · exact nodup_nil
  · exact fun _ hp => absurd hp not_mem_nil
  · intro id p
    rw [hpending]
    simp
  · simp [hwaiters]
  · exact fun _ _ _ _ hs => absurd hs not_mem_nil

/-- An event at which the client does nothing. -/
theorem Books.of_unchanged (h : r.Sound) (hreact : r.client.react texts event = next)
    (hclient : next.client = r.client) (hsettled : next.settled = [])
    (hnote : r.noteOf texts event = none)
    (hanswers : ∀ note ∈ r.notes, note.ends = [] → note.answersAfter event = note.answers) :
    r.Books texts event := by
  refine .of_quiet h hreact hsettled hnote ?_ ?_ ?_ ?_ ?_ ?_ hanswers <;> rw [hclient]
  · exact fun _ => rfl
  · exact h.told
  · exact List.Subset.refl _

/-- An event that creates a promise, which is open unless it is settled at once. -/
theorem Books.of_created (h : r.Sound) (hreact : r.client.react texts event = next)
    (hnote : r.noteOf texts event = some note) (hpromise : note.promise = r.client.promises)
    (outcome : Option RpcOutcome)
    (hsettled : next.settled = (outcome.map fun made => (r.client.promises, made)).toList)
    (hpromises : next.client.promises = r.client.promises + 1)
    (hopen : ∀ p, p ∈ next.client.openPromises ↔
      p ∈ r.client.openPromises ∨ outcome = none ∧ p = r.client.promises)
    (hwaiting : (next.client.waiters.map RpcWaiter.promise).Nodup)
    (hpending : ∀ id p, next.client.pending.get id = some p → r.client.pending.get id = some p ∨
      p = r.client.promises ∧ note.origin = .request id)
    (hwaiters : ∀ waiter ∈ next.client.waiters, waiter ∈ r.client.waiters ∨
      waiter.promise = r.client.promises ∧ note.origin = .waiter waiter.method waiter.predicate)
    (hnotifications : next.client.notifications = r.client.notifications)
    (htelling : next.client.telling = r.client.telling)
    (hclosed : next.client.closed = true → next.client.openPromises = [])
    (hanswers : ∀ note ∈ r.notes, note.ends = [] → note.answersAfter event = note.answers)
    (hright : ∀ made ∈ outcome, PromiseEnd.Right r.client.notifications
      ⟨event, note.answersAfter event, made⟩ note.origin) :
    r.Books texts event := by
  subst hreact
  have hfst : ∀ p, p ∈ (r.client.react texts event).settled.map Prod.fst ↔
      outcome ≠ none ∧ p = r.client.promises := by
    intro p
    rw [hsettled]
    cases outcome <;> simp
  have hfresh : r.client.promises ∉ r.client.openPromises :=
    fun hmem => absurd (h.open_fresh hmem) (lt_irrefl _)
  exact {
    noted := by
      rw [hnote]
      rintro _ ⟨⟩
      exact hpromise
    promises := by
      rw [hnote]
      exact hpromises.ge
    settled := by
      rw [hsettled]
      cases outcome <;> simp
    open_iff := by
      intro p
      rw [hopen, hfst, hnote]
      simp only [Option.map_some, Option.mem_some_iff, hpromise]
      grind
    settled_open := by
      intro p hp
      rw [hnote]
      exact .inr (congrArg some (hpromise.trans ((hfst p).1 hp).2.symm))
    waiting := hwaiting
    pending := fun id p hget => (hpending id p hget).imp_right fun ⟨hp, horigin⟩ =>
      ⟨note, hnote, hpromise.trans hp.symm, horigin⟩
    waiters := fun waiter hmem => (hwaiters waiter hmem).imp_right fun ⟨hp, horigin⟩ =>
      ⟨note, hnote, hpromise.trans hp.symm, horigin⟩
    answered := fun note hmem hends _ =>
      (hanswers note hmem hends).trans (h.unanswered note hmem hends)
    told := by
      rw [htelling, hnotifications]
      exact h.told
    kept := hnotifications ▸ List.Subset.refl _
    closed := hclosed
    right := by
      rw [hnote, hnotifications]
      intro note' hmem _ settlement hsettlement heq
      rw [hsettled] at hsettlement
      obtain ⟨made, hmade, rfl⟩ := Option.map_eq_some_iff.1 (Option.mem_toList.1 hsettlement)
      rcases mem_append.1 hmem with hold | hnew
      · exact absurd (heq ▸ h.fresh note' hold) (lt_irrefl _)
      · obtain rfl := mem_singleton.1 hnew
        exact hright made hmade }

theorem assertOpen_eq_ok {c : RpcClient} (h : c.assertOpen = .ok ()) : c.closed = false := by
  rw [assertOpen] at h
  split at h
  · exact absurd h nofun
  next hopen => exact Bool.eq_false_iff.2 fun hclosed => hopen (.inl hclosed)

theorem jsonRpcMessage_eq_ok {id : Option ℕ} (h : jsonRpcMessage method params id = .ok message) :
    ∃ message', jsonRpcMessage method params none = .ok message' := by
  unfold jsonRpcMessage at h
  split at h
  next unit units => exact ⟨_, rfl⟩
  · exact absurd h nofun

theorem Books.of_request (h : r.Sound) {fault : Option JsValue}
    (hcareful : r.Careful texts (.request method params fault)) :
    r.Books texts (.request method params fault) := by
  have hanswers : ∀ note ∈ r.notes, note.ends = [] →
      note.answersAfter (.request method params fault) = note.answers :=
    fun note _ _ => answersAfter_of_not_frame note (by rintro _ ⟨⟩)
  cases hopen : r.client.assertOpen with
  | error error =>
    have hreact : r.client.react texts (.request method params fault) =
        { client := r.client, returned := .error error } := by
      simp only [react, request, hopen]
    exact .of_unchanged h hreact rfl rfl (by rw [noteOf, hreact]) hanswers
  | ok =>
    cases hmessage : jsonRpcMessage method params (some r.client.requestId) with
    | error error =>
      have hreact : r.client.react texts (.request method params fault) =
          { client := { r.client with requestId := addOne r.client.requestId }
            returned := .error error } := by
        simp only [react, request, hopen, hmessage]
      exact .of_quiet h hreact rfl (by rw [noteOf, hreact]) (fun _ => rfl) rfl le_rfl rfl h.told
        (List.Subset.refl _) hanswers
    | ok message =>
      have hfree := hcareful hopen (jsonRpcMessage_eq_ok hmessage)
      rw [has_eq_false_iff] at hfree
      have hclosed := assertOpen_eq_ok hopen
      cases fault with
      | some error =>
        have hreact : r.client.react texts (.request method params (some error)) =
            { client := { r.client with
                requestId := addOne r.client.requestId
                promises := r.client.promises + 1
                pending := (r.client.pending.set r.client.requestId r.client.promises).delete
                  r.client.requestId }
              returned := .error (.thrown error) } := by
          simp only [react, request, hopen, hmessage]
        refine .of_quiet h hreact rfl (by rw [noteOf, hreact]) ?_ rfl (Nat.le_succ _) rfl h.told
          (List.Subset.refl _) hanswers
        -- the id was not in use, so that its entry can go
        intro id
        by_cases hid : id = r.client.requestId
        · rw [hid, hfree]
          exact get_delete_self _ _
        · exact (get_delete_ne _ hid).trans (get_set_ne _ _ hid)
      | none =>
        let registered : RpcClient :=
          { r.client with
            requestId := addOne r.client.requestId
            promises := r.client.promises + 1
            pending := r.client.pending.set r.client.requestId r.client.promises }
        have hreact : r.client.react texts (.request method params none) =
            { client := registered
              sent := [message]
              returned := .ok (some r.client.promises) } := by
          simp only [react, request, hopen, hmessage, registered]
        have hget : ∀ id p, registered.pending.get id = some p ↔
            r.client.pending.get id = some p ∨
              id = r.client.requestId ∧ p = r.client.promises := by
          intro id p
          by_cases hid : id = r.client.requestId
          · rw [hid, hfree]
            rw [get_set_self]
            simp [eq_comm]
          · show (r.client.pending.set _ _).get _ = _ ↔ _
            rw [get_set_ne _ _ hid]
            simp [hid]
        have hnote : r.noteOf texts (.request method params none) =
            some ⟨r.client.promises, .request r.client.requestId, 0, []⟩ := by
          rw [noteOf, hreact]
          rfl
        refine .of_created h hreact hnote rfl none rfl rfl ?_ h.waiting ?_
          (fun waiter hwaiter => .inl hwaiter) rfl rfl
          (fun hclosed' => absurd (hclosed'.symm.trans hclosed) Bool.noConfusion) hanswers
          (fun _ hmade => absurd hmade (Option.not_mem_none _))
        · intro p
          rw [mem_openPromises, mem_openPromises]
          simp only [hget, exists_or, exists_eq_left, true_and]
          exact or_right_comm
        · intro id p hp
          refine ((hget id p).1 hp).imp_right ?_
          rintro ⟨rfl, rfl⟩
          exact ⟨rfl, rfl⟩

theorem Books.of_notify (h : r.Sound) (method params : JsValue) (fault : Option JsValue) :
    r.Books texts (.notify method params fault) := by
  have hreact : (r.client.notify method params fault).client = r.client ∧
      (r.client.notify method params fault).settled = [] := by
    unfold notify
    split
    · exact ⟨rfl, rfl⟩
    split
    · exact ⟨rfl, rfl⟩
    split <;> exact ⟨rfl, rfl⟩
  exact .of_unchanged h rfl hreact.1 hreact.2 (noteOf_eq_none rfl) fun note _ _ =>
    answersAfter_of_not_frame note (by rintro _ ⟨⟩)

theorem satisfies_eq_ok {predicate : Predicate}
    (h : satisfies method predicate message = .ok true) :
    (∃ text, methodOf message = some text ∧ method = .string text) ∧
      predicate message = .ok true := by
  rw [satisfies] at h
  split at h
  next other hother =>
    split at h
    next hsame =>
      refine ⟨⟨other, hother, ?_⟩, h⟩
      cases method with
      | string => rw [of_decide_eq_true hsame]
      | _ => exact absurd hsame nofun
    · exact absurd (Except.ok.inj h) nofun
  · exact absurd (Except.ok.inj h) nofun

/-- What `find` finds is an element with the property. -/
theorem findM?_eq_ok {α : Type} {p : α → Except JsValue Bool} {items : List α} {item : α}
    (h : items.findM? p = .ok (some item)) : item ∈ items ∧ p item = .ok true := by
  induction items with
  | nil => exact absurd h nofun
  | cons head items ih =>
    obtain ⟨found, hfound, h⟩ := Except.bind_eq_ok_iff.1 h
    cases found with
    | true =>
      obtain rfl := Option.some.inj (Except.ok.inj h)
      exact ⟨mem_cons_self, hfound⟩
    | false => exact ⟨mem_cons_of_mem _ (ih h).1, (ih h).2⟩

section

variable (h : r.Sound)
include h

theorem Books.of_wait {options : WaitOptions}
    (hcareful : r.Careful texts (.wait method options)) : r.Books texts (.wait method options) := by
  have hanswers : ∀ note ∈ r.notes, note.ends = [] →
      note.answersAfter (.wait method options) = note.answers :=
    fun note _ _ => answersAfter_of_not_frame note (by rintro _ ⟨⟩)
  rcases hexisting : r.client.findExisting method options with error | _ | existing
  · have hreact : r.client.react texts (.wait method options) =
        { client := r.client, returned := .error (.thrown error) } := by
      simp only [react, waitForNotification, hexisting]
    exact .of_unchanged h hreact rfl rfl (by rw [noteOf, hreact]) hanswers
  · -- a waiter is added to a client that is open
    have hclosed : r.client.closed = false :=
      Bool.eq_false_iff.2 fun hclosed => hcareful hclosed hexisting
    let waiter : RpcWaiter := ⟨r.client.promises, method, options.predicate, options.timed⟩
    have hreact : r.client.react texts (.wait method options) =
        { client := { r.client with
            promises := r.client.promises + 1
            waiters := r.client.waiters ++ [waiter] }
          returned := .ok (some r.client.promises) } := by
      simp only [react, waitForNotification, hexisting, waiter]
    have hnote : r.noteOf texts (.wait method options) =
        some ⟨r.client.promises, .waiter method options.predicate, 0, []⟩ := by
      rw [noteOf, hreact]
      rfl
    refine .of_created h hreact hnote rfl none rfl rfl ?_ ?_ (fun id p => .inl) ?_ rfl
      rfl (fun hclosed' => absurd (hclosed'.symm.trans hclosed) nofun) hanswers nofun
    · intro p
      simp only [openPromises, map_append, map_cons, map_nil, mem_append,
        mem_singleton, true_and, waiter, or_assoc]
    · show ((r.client.waiters ++ [waiter]).map RpcWaiter.promise).Nodup
      rw [map_append]
      refine h.waiting.append (nodup_singleton _) fun p hp hp' => ?_
      have hlt : p < r.client.promises := h.open_fresh (mem_append_right _ hp)
      rw [mem_singleton.1 hp'] at hlt
      exact absurd hlt (lt_irrefl _)
    · intro waiter' hwaiter'
      refine (mem_append.1 hwaiter').imp_right fun hnew => ?_
      obtain rfl := mem_singleton.1 hnew
      exact ⟨rfl, rfl⟩
  · -- a notification that is there already resolves the promise at once
    have hreact : r.client.react texts (.wait method options) =
        { client := { r.client with promises := r.client.promises + 1 }
          settled := [(r.client.promises, .notification existing)]
          returned := .ok (some r.client.promises) } := by
      simp only [react, waitForNotification, hexisting]
    have hnote : r.noteOf texts (.wait method options) =
        some ⟨r.client.promises, .waiter method options.predicate, 0, []⟩ := by
      rw [noteOf, hreact]
      rfl
    have hfound : existing ∈ r.client.notifications ∧
        satisfies method options.predicate existing = .ok true := by
      rw [findExisting] at hexisting
      split at hexisting
      · exact findM?_eq_ok hexisting
      · exact absurd hexisting nofun
    refine .of_created h hreact hnote rfl (some (.notification existing)) rfl rfl
      (fun p => (or_iff_left fun hnone => nomatch hnone.1).symm) h.waiting (fun id p => .inl)
      (fun waiter => .inl) rfl rfl h.closed hanswers fun made hmade => ?_
    obtain rfl := Option.some.inj hmade
    obtain ⟨hmethod, hpredicate⟩ := satisfies_eq_ok hfound.2
    exact .inl ⟨existing, hfound.1, rfl, hmethod, hpredicate⟩

/-! ### Timeouts, frames and the socket -/

/-- The promise of a waiter is not that of a request. -/
theorem Sound.pending_ne_waiter {id p : ℕ} (hget : r.client.pending.get id = some p)
    {waiter : RpcWaiter} (hwaiter : waiter ∈ r.client.waiters) : p ≠ waiter.promise := by
  obtain ⟨note, hnote, hpromise, horigin⟩ := h.pending id p hget
  rintro rfl
  exact absurd ((h.origin_of_waiter hwaiter hnote hpromise).symm.trans horigin) nofun

theorem Books.of_timeout {promise : ℕ}
    (hcareful : r.Careful texts (.timeout promise)) : r.Books texts (.timeout promise) := by
  have hanswers : ∀ note ∈ r.notes, note.ends = [] →
      note.answersAfter (.timeout promise) = note.answers :=
    fun note _ _ => answersAfter_of_not_frame note (by rintro _ ⟨⟩)
  have hnote : r.noteOf texts (.timeout promise) = none := noteOf_eq_none rfl
  rcases hfind : r.client.waiters.find?
      (fun waiter => waiter.promise = promise ∧ waiter.timed = true) with _ | waiter
  · have hreact : r.client.react texts (.timeout promise) = { client := r.client } := by
      simp only [react, timeout, hfind]
    exact .of_unchanged h hreact rfl rfl hnote hanswers
  · have hmem : waiter ∈ r.client.waiters := mem_of_find?_eq_some hfind
    have hfound := List.find?_some hfind
    obtain ⟨hpromise, htimed⟩ := of_decide_eq_true hfound
    have hreadable := hcareful waiter hmem hpromise htimed
    have hreact : r.client.react texts (.timeout promise) =
        { client := { r.client with
            waiters := r.client.waiters.filter fun item => item.promise ≠ waiter.promise }
          settled := [(waiter.promise, .rejected (.timedOut waiter.method))] } := by
      simp only [react, timeout, hfind]
      rw [if_pos hreadable]
    refine .of_settled h hreact hnote le_rfl ?_ ?_ ?_ ?_ ?_ ?_ ?_ ?_ ?_
    · exact nodup_singleton _
    · intro p hp
      obtain rfl := mem_singleton.1 hp
      exact (r.client.mem_openPromises _).2 (.inr ⟨waiter, hmem, rfl⟩)
    · intro id p
      simp only [map_cons, map_nil, mem_singleton]
      exact (and_iff_left_of_imp fun hget => h.pending_ne_waiter hget hmem).symm
    · simp only [map_cons, map_nil, mem_singleton]
    · exact h.told
    · exact List.Subset.refl _
    · exact .inl
    · exact fun note hnote hends _ => hanswers note hnote hends
    · intro note hnote _ settlement hsettlement heq
      obtain rfl := mem_singleton.1 hsettlement
      rw [h.origin_of_waiter hmem hnote heq.symm]
      exact .inr ⟨_, rfl⟩

/-- An event that ends everything. -/
theorem Books.of_rejected {error : RpcError}
    (hall : event.EndsAll) (hreact : r.client.react texts event = next)
    (hsettled : next.settled =
      r.client.openPromises.map fun promise => (promise, .rejected error))
    (hpending : next.client.pending = OrdMap.empty) (hwaiters : next.client.waiters = [])
    (hpromises : next.client.promises = r.client.promises)
    (htold : next.client.telling ⊆ next.client.notifications)
    (hkept : r.client.notifications ⊆ next.client.notifications) : r.Books texts event := by
  have hnotFrame : ∀ data, event ≠ .frame data := by
    rintro data rfl
    exact hall
  have hnote : r.noteOf texts event = none := noteOf_eq_none <| by
    cases event with
    | close | socketClose | socketError => rfl
    | _ => exact hall.elim
  have hfst : next.settled.map Prod.fst = r.client.openPromises := by
    rw [hsettled, map_map]
    exact map_id _
  refine .of_settled h hreact hnote hpromises.ge ?_ ?_ ?_ ?_ htold hkept ?_ ?_ ?_
  · rw [hfst]
    exact h.open_nodup
  · rw [hfst]
    exact fun p hp => hp
  · intro id p
    rw [hpending, hfst]
    refine iff_of_false nofun fun ⟨hget, hclosed⟩ => hclosed ?_
    exact (r.client.mem_openPromises p).2 (.inl ⟨id, hget⟩)
  · rw [hwaiters, hfst, eq_comm, filter_eq_nil_iff]
    intro waiter hwaiter hclosed
    exact of_decide_eq_true hclosed ((r.client.mem_openPromises _).2 (.inr ⟨waiter, hwaiter, rfl⟩))
  · intro _
    refine .inr ?_
    rw [openPromises, hpending, hwaiters]
    rfl
  · exact fun note _ _ _ => answersAfter_of_not_frame note hnotFrame
  · intro note _ _ settlement hmem _
    rw [hsettled] at hmem
    obtain ⟨promise, -, rfl⟩ := mem_map.1 hmem
    cases note.origin with
    | request => exact .inr ⟨hall, error, rfl⟩
    | waiter => exact .inr ⟨error, rfl⟩

theorem Books.of_close : r.Books texts .close := by
  by_cases hclosed : r.client.closed = true
  · have hreact : r.client.react texts .close = { client := r.client } := if_pos hclosed
    refine .of_unchanged h hreact rfl rfl ?_ fun note _ _ =>
      answersAfter_of_not_frame note (by rintro _ ⟨⟩)
    rw [noteOf, hreact]
  · have hreact : r.client.react texts .close =
        { r.client with closed := true }.rejectPending .closed := if_neg hclosed
    exact .of_rejected h trivial hreact rfl rfl rfl rfl
      h.told (List.Subset.refl _)

theorem Books.of_socketError (error message : JsValue) :
    r.Books texts (.socketError error message) := by
  have hnote : r.noteOf texts (.socketError error message) = none := noteOf_eq_none rfl
  cases hmade : socketError texts error message with
  | none =>
    have hreact : r.client.react texts (.socketError error message) = { client := r.client } := by
      simp only [react, handleSocketError, hmade]
    exact .of_unchanged h hreact rfl rfl hnote
      fun note _ _ => answersAfter_of_not_frame note (by rintro _ ⟨⟩)
  | some made =>
    have hreact : r.client.react texts (.socketError error message) =
        { r.client.rejectPending made with
          emitted := if (made.untold texts).isNone = true then [.error made] else [] } := by
      simp only [react, handleSocketError, hmade]
    exact .of_rejected h trivial hreact rfl rfl rfl
      rfl h.told (List.Subset.refl _)

/-- The response with the id of a pending request. -/
theorem Books.of_response (hcareful : r.Careful texts (.frame data))
    (hmessage : frameMessage data = .ok message) (hid : hasOwn message "id" = true) :
    r.Books texts (.frame data) := by
  have hnote : r.noteOf texts (.frame data) = none := noteOf_eq_none rfl
  have hhandle : r.client.react texts (.frame data) = r.client.handleResponse texts message := by
    simp only [react, handleSocketMessage, hmessage, if_pos hid]
  rcases hpending : (requestKey (fieldOf message "id")).bind
      (fun key => (r.client.pending.get key).map fun promise => (key, promise)) with
    _ | ⟨key, promise⟩
  · have hreact : r.client.react texts (.frame data) =
        { client := r.client
          emitted := .unmatchedResponse message ::
            if (texts.string (fieldOf message "id")).isOk = true then
              [.error (.unknownResponse (fieldOf message "id"))]
            else [] } := by
      rw [hhandle, handleResponse, hpending]
    refine .of_unchanged h hreact rfl rfl hnote ?_
    intro note hmem hends
    refine answersAfter_eq fun id horigin => ?_
    refine Option.eq_none_iff_forall_ne_some.2 fun answer hanswer => ?_
    obtain ⟨hok, -, hkey⟩ := responseTo_frame (Option.filter_eq_some_iff.1 hanswer).1
    obtain rfl := Except.ok.inj (hok.symm.trans hmessage)
    rw [hkey, Option.bind_some, h.pending_get hmem horigin hends] at hpending
    cases hpending
  · obtain ⟨key', hkey, hmapped⟩ := Option.bind_eq_some_iff.1 hpending
    obtain ⟨promise', hget, heq⟩ := Option.map_eq_some_iff.1 hmapped
    obtain ⟨rfl, rfl⟩ := Prod.mk.inj heq
    have hresponse : (ClientEvent.frame data).responseTo key' = some message := by
      simp only [ClientEvent.responseTo, hmessage, if_pos (And.intro hid hkey)]
    obtain ⟨hisAnswer, hreadable⟩ := hcareful key' message (has_of_get hget) hresponse
    have hanswer : (ClientEvent.frame data).answerTo key' = some message := by
      rw [ClientEvent.answerTo, hresponse]
      exact Option.filter_some_pos (decide_eq_true hisAnswer)
    have hreact : r.client.react texts (.frame data) =
        { client := { r.client with pending := r.client.pending.delete key' }
          settled := [(promise', responseOutcome message)] } := by
      rw [hhandle, handleResponse, hpending]
      dsimp only
      rw [if_pos hreadable]
    refine .of_settled h hreact hnote le_rfl ?_ ?_ ?_ ?_ ?_ ?_ ?_ ?_ ?_
    · exact nodup_singleton _
    · intro p hp
      obtain rfl := mem_singleton.1 hp
      exact (r.client.mem_openPromises _).2 (.inl ⟨key', hget⟩)
    · intro id p
      simp only [map_cons, map_nil, mem_singleton]
      by_cases hid' : id = key'
      · subst hid'
        rw [get_delete_self]
        refine iff_of_false (fun h => by cases h) fun hlate => hlate.2 ?_
        exact Option.some.inj (hlate.1.symm.trans hget)
      · rw [get_delete_ne _ hid']
        refine (and_iff_left_of_imp fun hget' => ?_).symm
        -- two ids of one promise are the same
        rintro rfl
        obtain ⟨note, hmem, hpromise, horigin⟩ := h.pending key' p hget
        subst hpromise
        have horigin' := (h.origin_of_pending hmem hget').1
        exact hid' (PromiseOrigin.request.inj (horigin'.symm.trans horigin))
    · simp only [map_cons, map_nil, mem_singleton]
      rw [eq_comm, filter_eq_self]
      exact fun waiter hwaiter => decide_eq_true (h.pending_ne_waiter hget hwaiter).symm
    · exact h.told
    · exact List.Subset.refl _
    · exact .inl
    · intro note hmem hends hstays
      refine answersAfter_eq fun id horigin => ?_
      refine Option.eq_none_iff_forall_ne_some.2 fun answer hanswer' => hstays ?_
      obtain ⟨hok, -, hkey'⟩ := responseTo_frame (Option.filter_eq_some_iff.1 hanswer').1
      obtain rfl := Except.ok.inj (hok.symm.trans hmessage)
      obtain rfl := Option.some.inj (hkey'.symm.trans hkey)
      rw [h.pending_get hmem horigin hends] at hget
      exact mem_singleton.2 (Option.some.inj hget)
    · intro note hmem hends settlement hsettlement heq
      obtain rfl := mem_singleton.1 hsettlement
      obtain rfl : promise' = note.promise := heq
      have horigin := (h.origin_of_pending hmem hget).1
      have hanswers : note.answersAfter (.frame data) = 1 := by
        simp only [PromiseNote.answersAfter, horigin, hanswer, h.unanswered note hmem hends]
        rfl
      rw [horigin, hanswers]
      exact .inl ⟨message, hanswer, rfl, rfl⟩

theorem Books.of_frame (hcareful : r.Careful texts (.frame data)) :
    r.Books texts (.frame data) := by
  have hnote : r.noteOf texts (.frame data) = none := noteOf_eq_none rfl
  -- what has no id answers no request
  have hanswers : (∀ message, frameMessage data = .ok message → ¬hasOwn message "id" = true) →
      ∀ note ∈ r.notes, note.ends = [] → note.answersAfter (.frame data) = note.answers := by
    intro hno note _ _
    refine answersAfter_eq fun id _ => Option.eq_none_iff_forall_ne_some.2 fun answer hanswer => ?_
    obtain ⟨hok, hid, -⟩ := responseTo_frame (Option.filter_eq_some_iff.1 hanswer).1
    exact hno answer hok hid
  cases hmessage : frameMessage data with
  | error error =>
    have hreact : r.client.react texts (.frame data) =
        { client := r.client, emitted := [.error error] } := by
      simp only [react, handleSocketMessage, hmessage]
    exact .of_unchanged h hreact rfl rfl hnote
      (hanswers fun message hok => absurd (hmessage.symm.trans hok) nofun)
  | ok message =>
    by_cases hid : hasOwn message "id" = true
    · exact .of_response h hcareful hmessage hid
    · have hno : ∀ message', frameMessage data = .ok message' → ¬hasOwn message' "id" = true := by
        intro message' hok
        obtain rfl := Except.ok.inj (hmessage.symm.trans hok)
        exact hid
      by_cases hmethod : (methodOf message).isSome = true
      · have hreact : r.client.react texts (.frame data) =
            { client := { r.client with
                notifications := r.client.notifications ++ [message]
                telling := message :: r.client.telling }
              emitted := [.notification message] } := by
          simp only [react, handleSocketMessage, hmessage, if_neg hid, if_pos hmethod]
        refine .of_quiet h hreact rfl hnote (fun _ => rfl)
          rfl le_rfl rfl ?_ (subset_append_left _ _) (hanswers hno)
        refine cons_subset.2 ⟨mem_append_right _ (mem_singleton_self _), ?_⟩
        exact fun told htold => mem_append_left _ (h.told htold)
      · have hreact : r.client.react texts (.frame data) =
            { client := r.client
              emitted := [.error
                (.malformedFrame "browser app-server emitted an unknown frame")] } := by
          simp only [react, handleSocketMessage, hmessage, if_neg hid, if_neg hmethod]
        exact .of_unchanged h hreact rfl rfl hnote (hanswers hno)

end

/-- The waiters that a notification resolves are waiting for it. -/
theorem matchedWaiters_eq_ok {waiters matched : List RpcWaiter}
    (h : matchedWaiters message waiters = .ok matched) :
    matched.Sublist waiters ∧
      ∀ waiter ∈ matched, satisfies waiter.method waiter.predicate message = .ok true := by
  induction waiters generalizing matched with
  | nil =>
    obtain rfl := Except.ok.inj h
    exact ⟨List.Sublist.refl _, nofun⟩
  | cons waiter waiters ih =>
    rw [matchedWaiters] at h
    obtain ⟨satisfied, hsatisfied, h⟩ := Except.bind_eq_ok_iff.1 h
    obtain ⟨rest, hrest, h⟩ := Except.bind_eq_ok_iff.1 h
    obtain ⟨hsub, hall⟩ := ih hrest
    cases satisfied with
    | true =>
      obtain rfl := (Except.ok.inj h).symm
      exact ⟨hsub.cons_cons waiter, forall_mem_cons.2 ⟨hsatisfied, hall⟩⟩
    | false =>
      obtain rfl := (Except.ok.inj h).symm
      exact ⟨hsub.cons waiter, hall⟩

theorem Books.of_listenersReturn (h : r.Sound) : r.Books texts .listenersReturn := by
  have hanswers : ∀ note ∈ r.notes, note.ends = [] →
      note.answersAfter .listenersReturn = note.answers :=
    fun note _ _ => answersAfter_of_not_frame note (by rintro _ ⟨⟩)
  have hnote : r.noteOf texts .listenersReturn = none := noteOf_eq_none rfl
  rcases htelling : r.client.telling with _ | ⟨message, telling⟩
  · have hreact : r.client.react texts .listenersReturn = { client := r.client } := by
      simp only [react, listenersReturn, htelling]
    exact .of_unchanged h hreact rfl rfl hnote hanswers
  · have htold := h.told
    rw [htelling, cons_subset] at htold
    cases hmatched : matchedWaiters message r.client.waiters with
    | error =>
      have hreact : r.client.react texts .listenersReturn =
          { client := { r.client with telling } } := by
        simp only [react, listenersReturn, htelling, resolveNotificationWaiters, hmatched]
      exact .of_quiet h hreact rfl hnote (fun _ => rfl) rfl
        le_rfl rfl htold.2 (List.Subset.refl _) hanswers
    | ok matched =>
      obtain ⟨hsub, hall⟩ := matchedWaiters_eq_ok hmatched
      have hreact : r.client.react texts .listenersReturn =
          { client := { r.client with
              telling
              waiters := r.client.waiters.filter fun waiter =>
                waiter.promise ∉ matched.map RpcWaiter.promise }
            settled := matched.map fun waiter => (waiter.promise, .notification message) } := by
        simp only [react, listenersReturn, htelling, resolveNotificationWaiters, hmatched]
      have hfst : (matched.map fun waiter =>
          (waiter.promise, RpcOutcome.notification message)).map Prod.fst =
            matched.map RpcWaiter.promise := by
        rw [map_map]
        rfl
      refine .of_settled h hreact hnote le_rfl ?_ ?_ ?_ ?_ ?_ ?_ ?_ ?_ ?_
      · rw [hfst]
        exact h.waiting.sublist (hsub.map _)
      · rw [hfst]
        intro p hp
        obtain ⟨waiter, hwaiter, rfl⟩ := mem_map.1 hp
        exact (r.client.mem_openPromises _).2 (.inr ⟨waiter, hsub.subset hwaiter, rfl⟩)
      · rw [hfst]
        intro id p
        refine (and_iff_left_of_imp fun hget hmem => ?_).symm
        obtain ⟨waiter, hwaiter, heq⟩ := mem_map.1 hmem
        exact h.pending_ne_waiter hget (hsub.subset hwaiter) heq.symm
      · rw [hfst]
      · exact htold.2
      · exact List.Subset.refl _
      · exact .inl
      · exact fun note hmem hends _ => hanswers note hmem hends
      · intro note hmem _ settlement hsettlement heq
        obtain ⟨waiter, hwaiter, rfl⟩ := mem_map.1 hsettlement
        rw [h.origin_of_waiter (hsub.subset hwaiter) hmem heq.symm]
        obtain ⟨hmethod, hpredicate⟩ := satisfies_eq_ok (hall waiter hwaiter)
        exact .inl ⟨message, htold.1, rfl, hmethod, hpredicate⟩

/-- A careful event keeps the invariant. -/
theorem Sound.of_careful (h : r.Sound) (hcareful : r.Careful texts event) :
    (r.step texts event).Sound := by
  refine h.of_books ?_
  cases event with
  | request => exact .of_request h hcareful
  | notify method params fault => exact .of_notify h method params fault
  | wait => exact .of_wait h hcareful
  | close => exact .of_close h
  | timeout => exact .of_timeout h hcareful
  | frame => exact .of_frame h hcareful
  | listenersReturn => exact .of_listenersReturn h
  | socketState =>
    exact .of_quiet h rfl rfl rfl (fun _ => rfl) rfl le_rfl rfl h.told (List.Subset.refl _)
      fun note _ _ => answersAfter_of_not_frame note (by rintro _ ⟨⟩)
  | socketClose => exact .of_rejected h trivial rfl rfl rfl rfl rfl h.told (List.Subset.refl _)
  | socketError error message => exact .of_socketError h error message

end

/-! ### Runs -/

/-- In a run whose events are careful every promise ends at most once and as it may, and none is
left pending once the client is closed. -/
theorem matched_of_careful (texts : TextForms) {initialRequestId : JsValue} {socketOpen : Bool}
    {client : RpcClient}
    (hnew : RpcClient.new initialRequestId socketOpen = .ok client) (events : List ClientEvent)
    (hcareful : Along (step · texts) (Careful · texts) (start client) events) :
    Always (step · texts) Matched (start client) events := by
  obtain ⟨requestId, -, hclient⟩ := Except.bind_eq_ok_iff.1 hnew
  obtain rfl := (Except.ok.inj hclient).symm
  have hsound := Always.of_along (p := Sound) (fun _ _ hs he => hs.of_careful he)
    (.of_start _ rfl rfl rfl) hcareful
  exact hsound.mono fun _ hs => hs.matched

/-- The texts of what JSON has: an object whose `toString` is no function has none. -/
def jsonTexts : TextForms where
  string := jsonText
  template := jsonText
where
  jsonText
  | .string text => .ok text
  | .object _ fields =>
    if (fields.lookup (js "toString")).isSome = true then
      .error (.object .plain
        [(js "message", .string (js "Cannot convert object to primitive value"))])
    else .ok (js "[object Object]")
  | _ => .ok (js "null")

/-- A client whose first id is 1, on an open socket. -/
def openClient : RpcClient where
  closed := false
  notifications := []
  pending := OrdMap.empty
  promises := 0
  requestId := 1
  socketOpen := true
  telling := []
  waiters := []

/-- A frame with the fields of an object. -/
def frameOf (fields : List (String × JsValue)) : ClientEvent :=
  .frame (.text (some (.object .plain (fields.map fun field => (js field.1, field.2)))))

/-- A wait with a timer. -/
def waitFor (method : String) : ClientEvent :=
  .wait (.string (js method)) { predicate := fun _ => .ok true, replay := true, timed := true }

/-- A request, a waiter, the notification, the response twice, and the end. -/
theorem matched_turn : Always (step · jsonTexts) Matched (start openClient)
    [.request (.string (js "turn/start")) .undefined none, waitFor "turn/started",
      frameOf [("method", .string (js "turn/started"))], .listenersReturn,
      frameOf [("id", .number 1), ("result", .null)],
      frameOf [("id", .number 1), ("error", .null)], .timeout 1, .close,
      waitFor "turn/started"] := by
  refine @matched_of_careful jsonTexts .undefined true openClient rfl _
    ⟨fun _ _ => rfl, nofun, ?_, trivial, ?_, ?_, ?_, trivial, ?_, trivial⟩
  · rintro id message - h
    obtain ⟨hok, hid, -⟩ := responseTo_frame h
    obtain rfl := Except.ok.inj hok
    exact absurd hid (by decide)
  · rintro id message - h
    obtain rfl := Except.ok.inj (responseTo_frame h).1
    exact ⟨.inl (by decide), by decide⟩
  · rintro id message - h
    obtain rfl := Except.ok.inj (responseTo_frame h).1
    exact ⟨.inr (by decide), by decide⟩
  · -- the waiter has gone with the notification
    exact fun waiter (hwaiter : waiter ∈ []) => absurd hwaiter not_mem_nil
  · -- the notification has been received
    rintro - h
    exact absurd h nofun

/-- An error whose message has no text. -/
def unreadableError : JsValue :=
  .object .plain [(js "message", .object .plain [(js "toString", .number 1)])]

/-- A waiter that comes after the client was closed is left pending, a request of the server with
the id of one of the client ends that one without a result, and a request whose error cannot be made
is left pending too. -/
theorem not_matched_closed :
    ¬Always (step · jsonTexts) Matched (start openClient) [.close, waitFor "turn/completed"] ∧
    ¬Always (step · jsonTexts) Matched (start openClient)
      [.request (.string (js "turn/start")) .undefined none,
        frameOf [("id", .number 1), ("method", .string (js "execCommandApproval"))]] ∧
    ¬Always (step · jsonTexts) Matched (start openClient)
      [.request (.string (js "turn/start")) .undefined none,
        frameOf [("id", .number 1), ("error", unreadableError)], .close] := by
  refine ⟨?_, ?_, ?_⟩
  · intro h
    exact h.last.closed rfl _ (mem_singleton_self _) rfl
  · intro h
    rcases h.last.right _ (mem_singleton_self _) _ (mem_singleton_self _) with
      ⟨message, hanswer, -⟩ | ⟨hall, -⟩
    · obtain ⟨hresponse, hisAnswer⟩ := Option.filter_eq_some_iff.1 hanswer
      obtain rfl := Except.ok.inj (responseTo_frame hresponse).1
      exact absurd hisAnswer (by decide)
    · exact hall
  · intro h
    exact h.last.closed rfl _ (mem_singleton_self _) rfl

end RpcRun

end WasmHost

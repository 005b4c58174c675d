import Mathlib.Algebra.BigOperators.Group.List.Basic
import Mathlib.Data.List.Perm.Basic
import WasmHost.Lib.Run
import WasmHost.Path

/-!
# The bus of file system events

`EventBus` of `lib.rs`: file systems on any number of threads call `emit`, and one receiver takes
the events from a bounded channel. A call of `emit` is a sequence of atomic steps on the shared
counters and the channel, so a run of the bus advances one of the calls under way at a time, or
receives an event.

An event that finds the channel full is counted, and the count is reported in an event of its own
later on. No event is lost from the books (`BusRun.Books`). The sequence numbers in the channel
increase as long as events are accepted in the order of their numbers, which the bus does not see
to: a number is taken in one step and sent in another (`BusRun.conserved_of_careful`).
-/

namespace WasmHost

open List

/-- The kinds of a file system event. -/
inductive FileSystemEventKind
  | fileCreated
  | fileModified
  | fileMetadataModified
  | fileRemoved
  | directoryCreated
  | directoryRemoved
  | pathRenamed
  | eventsDropped
  deriving DecidableEq

/-- An event of the bus. -/
structure FileSystemEvent where
  sequence : ℕ
  kind : FileSystemEventKind
  path : Text
  targetPath : Option Text
  droppedCount : ℕ
  deriving DecidableEq

/-- The arguments of `emit`. No file system passes `EventsDropped`. -/
structure EmitArgs where
  kind : FileSystemEventKind
  path : Text
  targetPath : Option Text
  ordinary : kind ≠ .eventsDropped

/-- Where a call of `emit` stands: before its next atomic step. -/
inductive EmitPhase
  /-- The load of `enabled`. -/
  | called
  /-- The swap of `dropped_count`. -/
  | enabled
  /-- The number of the report of so many dropped events. -/
  | dropped (count : ℕ)
  /-- The `try_send` of that report. -/
  | reporting (count sequence : ℕ)
  /-- The addition that follows where the report is not sent. -/
  | restoring (count : ℕ)
  /-- The number of the event itself. -/
  | numbering
  /-- The `try_send` of the event. -/
  | sending (sequence : ℕ)
  /-- The addition that follows where the event is not sent. -/
  | counting
  | returned
  deriving DecidableEq

/-- `EventBus`, with the channel and what the receiver has taken from it. Counters are `u64`. -/
structure EventBus where
  capacity : ℕ
  enabled : Bool
  sequence : ℕ
  droppedCount : ℕ
  channel : List FileSystemEvent
  received : List FileSystemEvent

namespace EventBus

def new (capacity : ℕ) : EventBus := ⟨capacity, false, 0, 0, [], []⟩

/-- Turns the bus on or off. -/
def setEnabled (bus : EventBus) (enabled : Bool) : EventBus :=
  { bus with enabled, droppedCount := if enabled then bus.droppedCount else 0 }

variable (bus : EventBus)

/-- `fetch_add(1) + 1`. -/
def nextSequence : ℕ := (bus.sequence + 1) % 2 ^ 64

/-- Sends an event if there is room. -/
def trySend (event : FileSystemEvent) : Option EventBus :=
  if bus.channel.length < bus.capacity then
    some { bus with channel := bus.channel ++ [event] }
  else none

/-- The event that reports dropped ones. -/
def droppedEvent (count sequence : ℕ) : FileSystemEvent :=
  ⟨sequence, .eventsDropped, "/".toList, none, count⟩

/-- The next atomic step of a call of `emit`. -/
def perform (args : EmitArgs) : EmitPhase → EventBus × EmitPhase
  | .called => (bus, if bus.enabled then .enabled else .returned)
  | .enabled =>
      ({ bus with droppedCount := 0 },
        if 0 < bus.droppedCount then .dropped bus.droppedCount else .numbering)
  | .dropped count => ({ bus with sequence := bus.nextSequence }, .reporting count bus.nextSequence)
  | .reporting count sequence =>
      match bus.trySend (droppedEvent count sequence) with
      | some bus => (bus, .numbering)
      | none => (bus, .restoring count)
  | .restoring count =>
      -- `saturating_add`, and an addition that wraps
      ({ bus with droppedCount := (bus.droppedCount + min (count + 1) (2 ^ 64 - 1)) % 2 ^ 64 },
        .returned)
  | .numbering => ({ bus with sequence := bus.nextSequence }, .sending bus.nextSequence)
  | .sending sequence =>
      match bus.trySend ⟨sequence, args.kind, args.path, args.targetPath, 0⟩ with
      | some bus => (bus, .returned)
      | none => (bus, .counting)
  | .counting => ({ bus with droppedCount := (bus.droppedCount + 1) % 2 ^ 64 }, .returned)
  | .returned => (bus, .returned)

/-- The events sent so far. -/
def sent : List FileSystemEvent := bus.received ++ bus.channel

/-- How many ordinary events were sent. -/
def ordinarySent : ℕ := bus.sent.countP (·.kind ≠ .eventsDropped)

/-- How many dropped events were reported. -/
def reported : ℕ := ((bus.sent.filter (·.kind = .eventsDropped)).map (·.droppedCount)).sum

theorem ordinarySent_send (event : FileSystemEvent) :
    ordinarySent { bus with channel := bus.channel ++ [event] } =
      bus.ordinarySent + if event.kind ≠ .eventsDropped then 1 else 0 := by
  simp [ordinarySent, sent, countP_append, countP_singleton, Nat.add_assoc]

theorem reported_send (event : FileSystemEvent) :
    reported { bus with channel := bus.channel ++ [event] } =
      bus.reported + if event.kind = .eventsDropped then event.droppedCount else 0 := by
  unfold reported sent
  rw [← append_assoc, filter_append, map_append, sum_append]
  congr 1
  by_cases hkind : event.kind = .eventsDropped <;> simp [hkind]

end EventBus

/-- A call of `emit` that is under way. -/
structure EmitCall where
  args : EmitArgs
  phase : EmitPhase

/-- A bus and the calls of `emit` so far. -/
structure BusRun where
  bus : EventBus
  calls : List EmitCall

/-- The steps of a run of the bus. -/
inductive BusEvent
  | emit (args : EmitArgs)
  | advance (call : ℕ)
  | receive

namespace BusRun

/-- A bus that has been enabled. -/
def start (capacity : ℕ) : BusRun := ⟨(EventBus.new capacity).setEnabled true, []⟩

/-- The run behind an event. -/
def step (s : BusRun) : BusEvent → BusRun
  | .emit args => { s with calls := s.calls ++ [⟨args, .called⟩] }
  | .advance i =>
      match s.calls[i]? with
      | none => s
      | some call =>
          let (bus, phase) := s.bus.perform call.args call.phase
          ⟨bus, s.calls.set i { call with phase }⟩
  | .receive =>
      match s.bus.channel with
      | [] => s
      | event :: rest =>
          { s with bus := { s.bus with channel := rest, received := s.bus.received ++ [event] } }

end BusRun

namespace EmitPhase

/-- What the call has taken out of `dropped_count`. -/
def held : EmitPhase → ℕ
  | .dropped count | .reporting count _ | .restoring count => count
  | _ => 0

/-- The number of the event that the call is about to send. -/
def number : EmitPhase → Option ℕ
  | .reporting _ sequence | .sending sequence => some sequence
  | _ => none

/-- The call takes a number next. -/
def TakesNumber : EmitPhase → Prop
  | .dropped _ | .numbering => True
  | _ => False

/-- The phase decides it. -/
instance : DecidablePred TakesNumber := fun phase => by
  cases phase <;> simp only [TakesNumber] <;> infer_instance

/-- The call has taken a number that it has not sent. -/
def numbered : EmitPhase → Bool
  | .reporting _ _ | .restoring _ | .sending _ | .counting | .returned => true
  | _ => false

end EmitPhase

namespace BusRun

/-- How many calls of `emit` have returned. -/
def completed (calls : List EmitCall) : ℕ := calls.countP (·.phase = .returned)

/-- What the calls under way hold of the dropped events. -/
def held (calls : List EmitCall) : ℕ := (calls.map (·.phase.held)).sum

/-- The numbers of the events about to be sent. -/
def numbers (calls : List EmitCall) : List ℕ := calls.filterMap (·.phase.number)

/-- Every call that has returned is accounted for by an event that was sent, reported as dropped or
still to be reported, and the numbers in the channel increase. What a call under way has taken out
of `dropped_count` is still to be reported. -/
structure Conserved (s : BusRun) : Prop where
  counts : completed s.calls =
    s.bus.ordinarySent + s.bus.reported + (s.bus.droppedCount + held s.calls)
  increasing : (s.bus.channel.map (·.sequence)).Pairwise (· < ·)

/-- A number is taken below the last `u64`, and an event is accepted only when no other call holds a
smaller number. -/
def Careful (s : BusRun) : BusEvent → Prop
  | .advance i =>
      match s.calls[i]? with
      | none => True
      | some call =>
          (call.phase.TakesNumber → s.bus.sequence + 1 < 2 ^ 64) ∧
            (s.bus.channel.length < s.bus.capacity →
              ∀ number ∈ call.phase.number,
                ∀ other ∈ numbers (s.calls.eraseIdx i), number ≤ other)
  | _ => True

/-- The condition can be checked before a step. -/
instance (s : BusRun) (event : BusEvent) : Decidable (s.Careful event) := by
  unfold Careful
  split
  · split <;> infer_instance
  · infer_instance

/-! ### The books -/

/-- What careful steps keep. -/
structure Books (s : BusRun) : Prop extends s.Conserved where
  enabled : s.bus.enabled = true
  sequence_lt : s.bus.sequence < 2 ^ 64
  numbered_le : s.calls.countP (·.phase.numbered) ≤ s.bus.sequence
  numbers_le : ∀ number ∈ numbers s.calls, number ≤ s.bus.sequence
  numbers_nodup : (numbers s.calls).Nodup
  channel_le : ∀ event ∈ s.bus.channel, event.sequence ≤ s.bus.sequence
  channel_lt : ∀ event ∈ s.bus.channel, ∀ number ∈ numbers s.calls, event.sequence < number

variable {calls : List EmitCall} {call : EmitCall} {bus : EventBus}

/-- The order of the calls does not matter. -/
theorem Books.perm {calls' : List EmitCall} (h : Books ⟨bus, calls⟩) (hperm : calls.Perm calls') :
    Books ⟨bus, calls'⟩ := by
  have hnumbers : (numbers calls).Perm (numbers calls') := hperm.filterMap _
  have hcompleted : completed calls = completed calls' := hperm.countP_eq _
  have hheld : held calls = held calls' := (hperm.map _).sum_eq
  exact {
    counts := by rw [← hcompleted, ← hheld]; exact h.counts
    increasing := h.increasing
    enabled := h.enabled
    sequence_lt := h.sequence_lt
    numbered_le := (hperm.countP_eq _).symm.trans_le h.numbered_le
    numbers_le := fun number hmem => h.numbers_le number (hnumbers.mem_iff.2 hmem)
    numbers_nodup := hnumbers.nodup_iff.1 h.numbers_nodup
    channel_le := h.channel_le
    channel_lt := fun event hevent number hmem =>
      h.channel_lt event hevent number (hnumbers.mem_iff.2 hmem) }

/-- A call that has returned, as a number. -/
def returned (call : EmitCall) : ℕ := if call.phase = .returned then 1 else 0

theorem completed_cons (call : EmitCall) (calls : List EmitCall) :
    completed (call :: calls) = completed calls + returned call := by
  simp [completed, returned, countP_cons]

theorem held_cons (call : EmitCall) (calls : List EmitCall) :
    held (call :: calls) = call.phase.held + held calls := by
  simp [held]

theorem numbers_cons_of_none (h : call.phase.number = none) (calls : List EmitCall) :
    numbers (call :: calls) = numbers calls :=
  filterMap_cons_none h

theorem numbers_cons_of_some {number : ℕ} (h : call.phase.number = some number)
    (calls : List EmitCall) : numbers (call :: calls) = number :: numbers calls :=
  filterMap_cons_some h

theorem mem_numbers_cons {number : ℕ} (h : number ∈ numbers calls) :
    number ∈ numbers (call :: calls) := by
  obtain ⟨other, hother, hnumber⟩ := mem_filterMap.1 h
  exact mem_filterMap.2 ⟨other, mem_cons_of_mem _ hother, hnumber⟩

theorem nodup_numbers_of_cons (h : (numbers (call :: calls)).Nodup) : (numbers calls).Nodup :=
  h.sublist ((sublist_cons_self call calls).filterMap _)

section

variable {bus : EventBus} {call call' : EmitCall} {calls : List EmitCall}

variable (h : Books ⟨bus, call :: calls⟩)
include h

/-- A step that neither takes a number nor sends. -/
theorem Books.quiet (droppedCount : ℕ) (hnumber : call'.phase.number = none)
    (hnumbered : call'.phase.numbered → call.phase.numbered)
    (hcount : returned call' + (bus.droppedCount + call.phase.held) =
      returned call + (droppedCount + call'.phase.held)) :
    Books ⟨{ bus with droppedCount }, call' :: calls⟩ := by
  have hcounts := h.counts
  have hnumberedLe := h.numbered_le
  simp only [completed_cons, held_cons, countP_cons] at hcounts hnumberedLe
  have hnumbers := numbers_cons_of_none hnumber calls
  exact {
    counts := by
      simp only [completed_cons, held_cons]
      show _ = bus.ordinarySent + bus.reported + _
      omega
    increasing := h.increasing
    enabled := h.enabled
    sequence_lt := h.sequence_lt
    numbered_le := by
      simp only [countP_cons]
      refine (Nat.add_le_add_left ?_ _).trans hnumberedLe
      split
      next hcall' => rw [if_pos (hnumbered hcall')]
      · exact Nat.zero_le _
    numbers_le := fun number hmem => by
      rw [hnumbers] at hmem
      exact h.numbers_le number (mem_numbers_cons hmem)
    numbers_nodup := by
      rw [hnumbers]
      exact nodup_numbers_of_cons h.numbers_nodup
    channel_le := h.channel_le
    channel_lt := fun event hevent number hmem => by
      rw [hnumbers] at hmem
      exact h.channel_lt event hevent number (mem_numbers_cons hmem) }

/-- A new number is above all that were taken before. -/
theorem Books.number (hsequence : bus.sequence + 1 < 2 ^ 64)
    (hnumber : call.phase.number = none) (hnumber' : call'.phase.number = some bus.nextSequence)
    (hnumbered : call.phase.numbered = false) (hheld : call'.phase.held = call.phase.held)
    (hreturned : returned call' = returned call) :
    Books ⟨{ bus with sequence := bus.nextSequence }, call' :: calls⟩ := by
  have hnext : bus.nextSequence = bus.sequence + 1 := Nat.mod_eq_of_lt hsequence
  have hcounts := h.counts
  have hnumberedLe := h.numbered_le
  have hle := h.numbers_le
  have hnodup := h.numbers_nodup
  have hchannel := h.channel_lt
  simp only [completed_cons, held_cons, countP_cons, numbers_cons_of_none hnumber, hnumbered]
    at hcounts hnumberedLe hle hnodup hchannel
  rw [hnext] at hnumber' ⊢
  have hnumbers := numbers_cons_of_some hnumber' calls
  exact {
    counts := by
      simp only [completed_cons, held_cons]
      rw [hheld, hreturned]
      exact hcounts
    increasing := h.increasing
    enabled := h.enabled
    sequence_lt := hsequence
    numbered_le := by
      simp only [countP_cons]
      have hcall' : (if call'.phase.numbered = true then 1 else 0) ≤ 1 := by split <;> omega
      have hrest : calls.countP (·.phase.numbered) ≤ bus.sequence := hnumberedLe
      omega
    numbers_le := by
      rw [hnumbers]
      refine forall_mem_cons.2 ⟨le_rfl, fun number hmem => ?_⟩
      exact (hle number hmem).trans (Nat.le_succ _)
    numbers_nodup := by
      rw [hnumbers]
      refine nodup_cons.2 ⟨fun hmem => ?_, hnodup⟩
      exact absurd (hle _ hmem) (Nat.not_succ_le_self _)
    channel_le := fun event hevent => (h.channel_le event hevent).trans (Nat.le_succ _)
    channel_lt := fun event hevent => by
      rw [hnumbers]
      refine forall_mem_cons.2 ⟨?_, hchannel event hevent⟩
      exact Nat.lt_succ_of_le (h.channel_le event hevent) }

/-- An event whose number is the smallest one held goes behind the smaller ones in the channel. -/
theorem Books.send {event : FileSystemEvent} (hnumber : call.phase.number = some event.sequence)
    (hturn : ∀ other ∈ numbers calls, event.sequence ≤ other)
    (hnumber' : call'.phase.number = none)
    (hnumbered : call.phase.numbered = true)
    (hcount : returned call' + call.phase.held =
      returned call + call'.phase.held +
        if event.kind = .eventsDropped then event.droppedCount else 1) :
    Books ⟨{ bus with channel := bus.channel ++ [event] }, call' :: calls⟩ := by
  have hcounts := h.counts
  have hnumberedLe := h.numbered_le
  have hle := h.numbers_le
  have hnodup := h.numbers_nodup
  have hchannel := h.channel_lt
  simp only [completed_cons, held_cons, countP_cons, numbers_cons_of_some hnumber, hnumbered]
    at hcounts hnumberedLe hle hnodup hchannel
  simp only [forall_mem_cons] at hchannel
  obtain ⟨hleEvent, hle⟩ := forall_mem_cons.1 hle
  obtain ⟨hfresh, hnodup⟩ := nodup_cons.1 hnodup
  have hnumbers := numbers_cons_of_none hnumber' calls
  exact {
    counts := by
      simp only [completed_cons, held_cons]
      have hordinary := bus.ordinarySent_send event
      have hreported := bus.reported_send event
      rw [hordinary, hreported]
      split at hcount <;> simp only [*, ne_eq, not_true, not_false_eq_true, if_true, if_false] <;>
        omega
    increasing := by
      rw [map_append, pairwise_append]
      refine ⟨h.increasing, pairwise_singleton _ _, fun a ha b hb => ?_⟩
      obtain ⟨earlier, hearlier, rfl⟩ := mem_map.1 ha
      obtain rfl := mem_singleton.1 hb
      exact (hchannel earlier hearlier).1
    enabled := h.enabled
    sequence_lt := h.sequence_lt
    numbered_le := by
      simp only [countP_cons]
      have hcall' : (if call'.phase.numbered = true then 1 else 0) ≤ 1 := by split <;> omega
      have hrest : calls.countP (·.phase.numbered) + 1 ≤ bus.sequence := hnumberedLe
      omega
    numbers_le := by
      rw [hnumbers]
      exact hle
    numbers_nodup := by
      rw [hnumbers]
      exact hnodup
    channel_le := by
      refine forall_mem_append.2 ⟨h.channel_le, ?_⟩
      exact forall_mem_singleton.2 hleEvent
    channel_lt := by
      rw [hnumbers]
      refine forall_mem_append.2 ⟨fun earlier hearlier => (hchannel earlier hearlier).2, ?_⟩
      refine forall_mem_singleton.2 fun other hother => (hturn other hother).lt_of_ne ?_
      rintro rfl
      exact hfresh hother }

/-- Every call that has returned has taken a number, so `dropped_count` stays below the numbers. -/
theorem Books.dropped_lt (hnumbered : call.phase.numbered = true)
    (hreturned : returned call = 0) : bus.droppedCount + call.phase.held + 1 < 2 ^ 64 := by
  have hcounts := h.counts
  have hnumberedLe := h.numbered_le
  have hsequence := h.sequence_lt
  simp only [completed_cons, held_cons, countP_cons, hnumbered, if_true, hreturned]
    at hcounts hnumberedLe hsequence
  have hcompleted : completed calls ≤ calls.countP (·.phase.numbered) := by
    refine countP_mono_left fun other _ hother => ?_
    rw [of_decide_eq_true hother]
    rfl
  omega

end

/-- One step of the call in front. -/
theorem Books.perform
    (h : Books ⟨bus, call :: calls⟩)
    (hsequence : call.phase.TakesNumber → bus.sequence + 1 < 2 ^ 64)
    (hturn : bus.channel.length < bus.capacity →
      ∀ number ∈ call.phase.number, ∀ other ∈ numbers calls, number ≤ other) :
    Books ⟨(bus.perform call.args call.phase).1,
      { call with phase := (bus.perform call.args call.phase).2 } :: calls⟩ := by
  obtain ⟨args, phase⟩ := call
  cases phase with
  | called =>
    have henabled : bus.enabled = true := h.enabled
    simp only [EventBus.perform, henabled, if_true]
    refine h.quiet bus.droppedCount rfl ?_ rfl
    nofun
  | enabled =>
    simp only [EventBus.perform]
    split
    next hpos =>
      refine h.quiet 0 rfl ?_ ?_
      · nofun
      · show 0 + (bus.droppedCount + 0) = 0 + (0 + bus.droppedCount)
        omega
    next hzero =>
      refine h.quiet 0 rfl ?_ ?_
      · nofun
      · show 0 + (bus.droppedCount + 0) = 0 + (0 + 0)
        omega
  | dropped => exact h.number (hsequence trivial) rfl rfl rfl rfl rfl
  | reporting count sequence =>
    simp only [EventBus.perform, EventBus.trySend]
    by_cases hroom : bus.channel.length < bus.capacity
    · rw [if_pos hroom]
      exact h.send rfl (hturn hroom sequence rfl) rfl rfl rfl
    · rw [if_neg hroom]
      exact h.quiet bus.droppedCount rfl (fun _ => rfl) rfl
  | restoring count =>
    have hlt : bus.droppedCount + count + 1 < 2 ^ 64 := h.dropped_lt rfl rfl
    have hsum : (bus.droppedCount + min (count + 1) (2 ^ 64 - 1)) % 2 ^ 64 =
        bus.droppedCount + count + 1 := by omega
    simp only [EventBus.perform, hsum]
    apply h.quiet _ rfl (fun _ => rfl)
    show 1 + (bus.droppedCount + count) = 0 + (bus.droppedCount + count + 1 + 0)
    omega
  | numbering => exact h.number (hsequence trivial) rfl rfl rfl rfl rfl
  | sending sequence =>
    simp only [EventBus.perform, EventBus.trySend]
    by_cases hroom : bus.channel.length < bus.capacity
    · rw [if_pos hroom]
      apply h.send rfl (hturn hroom sequence rfl) rfl rfl
      rw [if_neg args.ordinary]
      rfl
    · rw [if_neg hroom]
      exact h.quiet bus.droppedCount rfl (fun _ => rfl) rfl
  | counting =>
    have hlt : bus.droppedCount + 0 + 1 < 2 ^ 64 := h.dropped_lt rfl rfl
    have hsum : (bus.droppedCount + 1) % 2 ^ 64 = bus.droppedCount + 1 := by omega
    simp only [EventBus.perform, hsum]
    apply h.quiet _ rfl (fun _ => rfl)
    show 1 + (bus.droppedCount + 0) = 0 + (bus.droppedCount + 1 + 0)
    omega
  | returned => exact h

theorem books_start (capacity : ℕ) : Books (start capacity) where
  counts := rfl
  increasing := .nil
  enabled := rfl
  sequence_lt := Nat.two_pow_pos 64
  numbered_le := Nat.zero_le _
  numbers_le := nofun
  numbers_nodup := .nil
  channel_le := nofun
  channel_lt := nofun

theorem Books.step {s : BusRun} (h : s.Books) (event : BusEvent) (hcareful : s.Careful event) :
    (s.step event).Books := by
  obtain ⟨bus, calls⟩ := s
  cases event with
  | emit args =>
    have hfront : Books ⟨bus, ⟨args, .called⟩ :: calls⟩ := by
      have hnumbers : numbers (⟨args, .called⟩ :: calls) = numbers calls :=
        numbers_cons_of_none rfl calls
      have hheld : held (⟨args, .called⟩ :: calls) = held calls :=
        (held_cons _ _).trans (Nat.zero_add _)
      exact {
        counts := by
          rw [completed_cons, hheld]
          exact h.counts
        increasing := h.increasing
        enabled := h.enabled
        sequence_lt := h.sequence_lt
        numbered_le := by
          rw [countP_cons]
          exact h.numbered_le
        numbers_le := by rw [hnumbers]; exact h.numbers_le
        numbers_nodup := by rw [hnumbers]; exact h.numbers_nodup
        channel_le := h.channel_le
        channel_lt := by rw [hnumbers]; exact h.channel_lt }
    exact hfront.perm (perm_append_singleton _ _).symm
  | advance i =>
    simp only [BusRun.step]
    cases hcall : calls[i]? with
    | none => exact h
    | some =>
      obtain ⟨hi, rfl⟩ := List.getElem?_eq_some_iff.1 hcall
      simp only [Careful, hcall] at hcareful
      have hfront := h.perm (getElem_cons_eraseIdx_perm hi).symm
      exact (hfront.perform hcareful.1 hcareful.2).perm (set_perm_cons_eraseIdx hi _).symm
  | receive =>
    simp only [BusRun.step]
    cases hchannel : bus.channel with
    | nil => exact h
    | cons event rest =>
      -- what is received stays among the events sent
      have hsent : EventBus.sent
          { bus with channel := rest, received := bus.received ++ [event] } = bus.sent := by
        simp [EventBus.sent, hchannel]
      have hincreasing := h.increasing
      have hle := h.channel_le
      have hlt := h.channel_lt
      simp only [hchannel, map_cons] at hincreasing hle hlt
      exact {
        counts := by
          unfold EventBus.ordinarySent EventBus.reported
          rw [hsent]
          exact h.counts
        increasing := hincreasing.of_cons
        enabled := h.enabled
        sequence_lt := h.sequence_lt
        numbered_le := h.numbered_le
        numbers_le := h.numbers_le
        numbers_nodup := h.numbers_nodup
        channel_le := fun later hlater => hle later (mem_cons_of_mem _ hlater)
        channel_lt := fun later hlater => hlt later (mem_cons_of_mem _ hlater) }

/-- In a run whose steps are careful, no event is lost from the books and the numbers in the channel
increase, in every state. -/
theorem conserved_of_careful (capacity : ℕ) (events : List BusEvent)
    (h : Along step Careful (start capacity) events) :
    Always step Conserved (start capacity) events :=
  have hbooks := Always.of_along (fun _ _ hbooks hcareful => hbooks.step _ hcareful)
    (books_start capacity) h
  hbooks.mono fun _ hbooks => hbooks.toConserved

/-- The events a file system reports for a new file. -/
def created (path : Text) : EmitArgs := ⟨.fileCreated, path, none, nofun⟩

/-- On a channel with room for one event the second one is dropped, and reported once the first one
has been received. -/
theorem conserved_of_careful_reported :
    Always step Conserved (start 1)
      [.emit (created ['a']), .advance 0, .advance 0, .advance 0, .advance 0,
        .emit (created ['b']), .advance 1, .advance 1, .advance 1, .advance 1, .advance 1, .receive,
        .emit (created ['c']), .advance 2, .advance 2, .advance 2, .advance 2] := by
  apply conserved_of_careful
  simp only [Along]
  decide

/-- Of two calls that have taken their numbers the second one sends first. -/
theorem not_conserved_overtaken :
    ¬Always step Conserved (start 2)
      [.emit (created ['a']), .emit (created ['b']), .advance 0, .advance 0, .advance 0, .advance 1,
        .advance 1, .advance 1, .advance 1, .advance 0] :=
  fun h => absurd h.last.increasing (by decide)

end BusRun

end WasmHost

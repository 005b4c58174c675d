import Mathlib.Data.List.Nodup
import WasmHost.Lib.Run
import WasmHost.Web.ByteStream

/-!
# Reads of a byte stream

`WorkerRequestBodyStream` and `CommandInputStream` with the promises of their reads: which read gets
which chunk. `ByteStream` forgets who waits and keeps how many do (`ByteQueue.toStream`).

Reads are numbered in the order of their calls. The chunk of a push is what `toUint8Array` makes of
it, which may throw; an error is one of the worker's own, as all callers of `fail` pass, and is kept
as it is.

* `QueueRun.lossless`: in every run the reads get the chunks in order, and after them the failure or
  the end, and none of them waits behind either.
* `QueueRun.refines`: after every run the queue is the stream whose waiters are counted.
-/

namespace WasmHost

open List

/-- What the promise of a read comes to. -/
inductive ReadEnd (ε : Type)
  | chunk (bytes : Bytes)
  | rejected (error : ε)
  | ended

/-- What a promise of the stream whose waiters are counted comes to, unless it waits. -/
def ByteStream.Read.settled {ε : Type} : ByteStream.Read ε → List (ReadEnd ε)
  | .chunk bytes => [.chunk bytes]
  | .rejected error => [.rejected error]
  | .ended => [.ended]
  | .pending => []

/-- A stream with its waiters, each of them the number of the read that waits. -/
structure ByteQueue (ε : Type) where
  chunks : List Bytes
  waiters : List ℕ
  closed : Bool
  error : Option ε

/-- The errors that a stream throws itself. -/
structure QueueErrors (ε : Type) where
  alreadyClosed : ε
  notBytes : ε

namespace ByteQueue

variable {ε : Type}

def new : ByteQueue ε := ⟨[], [], false, none⟩

/-- `push`, with the reads that it settles. -/
def push (errors : QueueErrors ε) (chunk : Option Bytes) (q : ByteQueue ε) :
    Except ε (ByteQueue ε × List (ℕ × ReadEnd ε)) :=
  if q.closed = true then .error errors.alreadyClosed
  else match q.error, chunk with
  | some error, _ => .error error
  | none, none => .error errors.notBytes
  | none, some bytes =>
    if bytes = [] then .ok (q, [])
    else match q.waiters with
    | waiter :: waiters => .ok ({ q with waiters }, [(waiter, .chunk bytes)])
    | [] => .ok ({ q with chunks := q.chunks ++ [bytes] }, [])

/-- Bytes are taken until the end or a failure. -/
theorem exists_push (errors : QueueErrors ε) {q : ByteQueue ε} (hclosed : q.closed = false)
    (herror : q.error = none) (bytes : Bytes) :
    ∃ next, q.push errors (some bytes) = .ok next := by
  obtain ⟨chunks, waiters, closed, error⟩ := q
  obtain rfl : closed = false := hclosed
  obtain rfl : error = none := herror
  by_cases hempty : bytes = []
  · exact ⟨_, if_pos hempty⟩
  · cases waiters with
    | nil | cons => exact ⟨_, if_neg hempty⟩

/-- `resolveWaiters` and `rejectWaiters`. -/
def settleWaiters (outcome : ReadEnd ε) (q : ByteQueue ε) : ByteQueue ε × List (ℕ × ReadEnd ε) :=
  ({ q with waiters := [] }, q.waiters.map fun waiter => (waiter, outcome))

/-- `end`. -/
def finish (errors : QueueErrors ε) (q : ByteQueue ε) :
    Except ε (ByteQueue ε × List (ℕ × ReadEnd ε)) :=
  if q.closed = true then .error errors.alreadyClosed
  else .ok ({ q with closed := true }.settleWaiters .ended)

/-- Fails the queue and everyone who waits. -/
def fail (error : ε) (q : ByteQueue ε) : ByteQueue ε × List (ℕ × ReadEnd ε) :=
  match q.error with
  | some _ => (q, [])
  | none => { q with error := some error }.settleWaiters (.rejected error)

/-- The read with a number. -/
def readChunk (read : ℕ) (q : ByteQueue ε) : ByteQueue ε × List (ℕ × ReadEnd ε) :=
  match q.chunks, q.error with
  | bytes :: chunks, _ => ({ q with chunks }, [(read, .chunk bytes)])
  | [], some error => (q, [(read, .rejected error)])
  | [], none =>
    if q.closed = true then (q, [(read, .ended)])
    else ({ q with waiters := q.waiters ++ [read] }, [])

/-- The stream with its waiters counted. -/
def toStream (q : ByteQueue ε) : ByteStream ε := ⟨q.chunks, q.waiters.length, q.closed, q.error⟩

theorem toStream_push (errors : QueueErrors ε) (bytes : Bytes) (q : ByteQueue ε) :
    (q.push errors (some bytes)).map (fun next => next.1.toStream) =
      q.toStream.push errors.alreadyClosed bytes := by
  unfold push ByteStream.push
  by_cases hclosed : q.closed = true
  · simp [toStream, hclosed, Except.map]
  · cases herror : q.error with
    | some => simp [toStream, hclosed, herror, Except.map]
    | none =>
      by_cases hempty : bytes = []
      · simp [toStream, hclosed, herror, hempty, Except.map]
      · cases hwaiters : q.waiters with
        | nil | cons => simp [toStream, hclosed, herror, hempty, hwaiters, Except.map]

theorem toStream_finish (errors : QueueErrors ε) (q : ByteQueue ε) :
    (q.finish errors).map (fun next => next.1.toStream) =
      q.toStream.finish errors.alreadyClosed := by
  unfold finish ByteStream.finish
  by_cases hclosed : q.closed = true
  · simp [toStream, hclosed, Except.map]
  · simp [toStream, settleWaiters, hclosed, Except.map]

theorem toStream_fail (error : ε) (q : ByteQueue ε) :
    (q.fail error).1.toStream = q.toStream.fail error := by
  unfold fail ByteStream.fail
  cases herror : q.error with
  | some => simp [toStream, herror]
  | none => simp [toStream, settleWaiters, herror]

theorem toStream_readChunk (read : ℕ) (q : ByteQueue ε) :
    (q.readChunk read).1.toStream = q.toStream.readChunk.2 := by
  unfold readChunk ByteStream.readChunk
  cases hchunks : q.chunks with
  | cons => simp [toStream, hchunks]
  | nil =>
    cases herror : q.error with
    | some => simp [toStream, hchunks, herror]
    | none =>
      by_cases hclosed : q.closed = true <;> simp [toStream, hchunks, herror, hclosed]

theorem settled_readChunk (read : ℕ) (q : ByteQueue ε) :
    (q.readChunk read).2 = q.toStream.readChunk.1.settled.map (read, ·) := by
  obtain ⟨chunks, waiters, closed, error⟩ := q
  cases chunks with
  | cons => rfl
  | nil =>
    cases error with
    | some => rfl
    | none => cases closed <;> rfl

end ByteQueue

/-! ### Runs -/

/-- The calls of a queue. -/
inductive QueueEvent (ε : Type)
  | push (chunk : Option Bytes)
  | finish
  | fail (error : ε)
  | read

/-- A read that is settled, with the failure and the end that had been told of by then. -/
structure SettledRead (ε : Type) where
  read : ℕ
  outcome : ReadEnd ε
  failure : Option ε
  finished : Bool

/-- A stream with the number of reads, those that are settled, the chunks that were accepted and
what `fail` and `end` have told it. -/
structure QueueRun (ε : Type) where
  queue : ByteQueue ε
  reads : ℕ
  settled : List (SettledRead ε)
  accepted : List Bytes
  failure : Option ε
  finished : Bool

namespace QueueRun

variable {ε : Type}

def start : QueueRun ε := ⟨.new, 0, [], [], none, false⟩

/-- The run goes on with a stream that has settled some reads. -/
def settle (r : QueueRun ε) (next : ByteQueue ε × List (ℕ × ReadEnd ε)) : QueueRun ε :=
  { r with
    queue := next.1
    settled := r.settled ++ next.2.map fun read => ⟨read.1, read.2, r.failure, r.finished⟩ }

/-- A call that throws changes nothing. -/
def step (errors : QueueErrors ε) (r : QueueRun ε) : QueueEvent ε → QueueRun ε
  | .push chunk =>
    match r.queue.push errors chunk with
    | .error _ => r
    | .ok next =>
      { r with accepted := r.accepted ++ chunk.toList.filter (· ≠ []) }.settle next
  | .finish =>
    match r.queue.finish errors with
    | .error _ => r
    | .ok next => { r with finished := true }.settle next
  | .fail error =>
    { r with failure := r.failure.or (some error) }.settle (r.queue.fail error)
  | .read => { r with reads := r.reads + 1 }.settle (r.queue.readChunk r.reads)

/-- What a read gets that comes behind the last chunk. -/
def closing (failure : Option ε) : ReadEnd ε :=
  match failure with
  | some error => .rejected error
  | none => .ended

/-- Bytes are accepted until the end or a failure. The reads get the chunks that were accepted, each
of them one, in order; those behind them get the failure or else the end, and none waits when there
is one. -/
structure Lossless (r : QueueRun ε) : Prop where
  accepts : r.failure = none → r.finished = false → ∀ errors bytes, bytes ≠ [] →
    (r.step errors (.push (some bytes))).accepted = r.accepted ++ [bytes]
  once : (r.settled.map SettledRead.read).Nodup
  numbered : ∀ s ∈ r.settled, s.read < r.reads
  chunks : ∀ i bytes, i < r.reads → r.accepted[i]? = some bytes →
    ∃ s ∈ r.settled, s.read = i ∧ s.outcome = .chunk bytes
  behind : ∀ s ∈ r.settled, r.accepted.length ≤ s.read →
    s.outcome = closing s.failure ∧ (s.failure = none → s.finished = true)
  pending : ∀ i < r.reads, i ∉ r.settled.map SettledRead.read →
    r.failure = none ∧ r.finished = false ∧ r.accepted.length ≤ i

/-- The reads that wait: those behind the last chunk, as long as nothing has ended. -/
def waiting (r : QueueRun ε) : List ℕ :=
  if r.failure = none ∧ r.finished = false then
    List.range' r.accepted.length (r.reads - r.accepted.length)
  else []

/-- The queues of the stream are what the numbers of chunks and reads leave of each other. -/
structure Sound (r : QueueRun ε) : Prop where
  chunks : r.queue.chunks = r.accepted.drop r.reads
  waiters : r.queue.waiters = r.waiting
  closed : r.queue.closed = r.finished
  error : r.queue.error = r.failure
  once : (r.settled.map SettledRead.read).Nodup
  settled_iff : ∀ i, i ∈ r.settled.map SettledRead.read ↔ i < r.reads ∧ i ∉ r.waiting
  right : ∀ s ∈ r.settled,
    (∃ bytes, r.accepted[s.read]? = some bytes ∧ s.outcome = .chunk bytes) ∨
    (r.accepted.length ≤ s.read ∧ s.outcome = closing s.failure ∧
      (s.failure = none → s.finished = true) ∧ (r.failure = none → r.finished = true))

theorem mem_waiting {r : QueueRun ε} {i : ℕ} :
    i ∈ r.waiting ↔
      (r.failure = none ∧ r.finished = false) ∧ r.accepted.length ≤ i ∧ i < r.reads := by
  rw [waiting]
  split_ifs with hopen
  · rw [mem_range'_1]
    constructor
    · rintro ⟨hle, hlt⟩
      exact ⟨hopen, hle, by omega⟩
    · rintro ⟨-, hle, hlt⟩
      exact ⟨hle, by omega⟩
  · exact iff_of_false not_mem_nil fun h => hopen h.1

theorem waiting_of_not_open {r : QueueRun ε} (h : ¬(r.failure = none ∧ r.finished = false)) :
    r.waiting = [] := if_neg h

namespace Sound

variable {r : QueueRun ε} {chunk : Option Bytes}

theorem of_start : (start : QueueRun ε).Sound where
  chunks := rfl
  waiters := rfl
  closed := rfl
  error := rfl
  once := nodup_nil
  settled_iff := fun i => iff_of_false not_mem_nil fun h => absurd h.1 (Nat.not_lt_zero i)
  right := nofun

variable (h : r.Sound)
include h

theorem toLossless : r.Lossless where
  accepts := by
    intro hfailure hfinished errors bytes hne
    have hclosed : r.queue.closed = false := h.closed.trans hfinished
    have herror : r.queue.error = none := h.error.trans hfailure
    obtain ⟨next, hpush⟩ := ByteQueue.exists_push errors hclosed herror bytes
    rw [QueueRun.step, hpush]
    simp [settle, hne]
  once := h.once
  numbered := by
    intro s hs
    exact ((h.settled_iff s.read).1 (mem_map_of_mem hs)).1
  chunks := by
    intro i bytes hi hbytes
    obtain ⟨hlt, heq⟩ := List.getElem?_eq_some_iff.1 hbytes
    have hnotWaiting : i ∉ r.waiting := fun hmem => absurd (mem_waiting.1 hmem).2.1 (by omega)
    obtain ⟨s, hs, rfl⟩ := mem_map.1 ((h.settled_iff i).2 ⟨hi, hnotWaiting⟩)
    refine ⟨s, hs, rfl, ?_⟩
    rcases h.right s hs with ⟨bytes', hbytes', houtcome⟩ | ⟨hle, -⟩
    · rw [houtcome, Option.some.inj (hbytes'.symm.trans hbytes)]
    · omega
  behind := by
    intro s hs hle
    rcases h.right s hs with ⟨bytes, hbytes, -⟩ | ⟨-, houtcome, hfinished, -⟩
    · obtain ⟨hlt, -⟩ := List.getElem?_eq_some_iff.1 hbytes
      omega
    · exact ⟨houtcome, hfinished⟩
  pending := by
    intro i hi hpending
    by_contra hnot
    refine hpending ((h.settled_iff i).2 ⟨hi, fun hmem => hnot ?_⟩)
    obtain ⟨⟨hfailure, hfinished⟩, hle, -⟩ := mem_waiting.1 hmem
    exact ⟨hfailure, hfinished, hle⟩

/-- A stream that has accepted the chunk of a push is open. -/
theorem open_of_push {errors : QueueErrors ε}
    {next : ByteQueue ε × List (ℕ × ReadEnd ε)} (hpush : r.queue.push errors chunk = .ok next) :
    (r.failure = none ∧ r.finished = false) ∧ ∃ bytes, chunk = some bytes := by
  unfold ByteQueue.push at hpush
  split at hpush
  · exact absurd hpush nofun
  next hclosed =>
    rw [h.closed, Bool.not_eq_true] at hclosed
    split at hpush
    · exact absurd hpush nofun
    · exact absurd hpush nofun
    next bytes herror => exact ⟨⟨h.error.symm.trans herror, hclosed⟩, bytes, rfl⟩

/-- Reads are settled that have waited, or that are new. -/
theorem of_settle {r' : QueueRun ε} {next : ByteQueue ε × List (ℕ × ReadEnd ε)}
    (hsettled : r'.settled = r.settled) (hchunks : next.1.chunks = r'.accepted.drop r'.reads)
    (hwaiters : next.1.waiters = r'.waiting) (hclosed : next.1.closed = r'.finished)
    (herror : next.1.error = r'.failure) (honce : (next.2.map Prod.fst).Nodup)
    (hfresh : ∀ i ∈ next.2.map Prod.fst, i < r.reads → i ∈ r.waiting)
    (hiff : ∀ i, (i < r.reads ∧ i ∉ r.waiting) ∨ i ∈ next.2.map Prod.fst ↔
      i < r'.reads ∧ i ∉ r'.waiting)
    (hright : ∀ s ∈ (r'.settle next).settled,
      (∃ bytes, r'.accepted[s.read]? = some bytes ∧ s.outcome = .chunk bytes) ∨
      (r'.accepted.length ≤ s.read ∧ s.outcome = closing s.failure ∧
        (s.failure = none → s.finished = true) ∧ (r'.failure = none → r'.finished = true))) :
    (r'.settle next).Sound where
  chunks := hchunks
  waiters := hwaiters
  closed := hclosed
  error := herror
  once := by
    rw [settle, hsettled, map_append, map_map]
    refine h.once.append honce fun i hi hi' => ?_
    obtain ⟨hlt, hnot⟩ := (h.settled_iff i).1 hi
    exact hnot (hfresh i hi' hlt)
  settled_iff := by
    intro i
    rw [settle, hsettled, map_append, map_map, mem_append, h.settled_iff]
    exact hiff i
  right := hright

theorem push {errors : QueueErrors ε} {next : ByteQueue ε × List (ℕ × ReadEnd ε)}
    (hpush : r.queue.push errors chunk = .ok next) :
    ({ r with accepted := r.accepted ++ chunk.toList.filter (· ≠ []) }.settle next).Sound := by
  obtain ⟨hopen, bytes, rfl⟩ := h.open_of_push hpush
  have hclosed : ¬r.queue.closed = true := by
    rw [h.closed, hopen.2]
    exact Bool.false_ne_true
  simp only [ByteQueue.push, if_neg hclosed, h.error.trans hopen.1] at hpush
  by_cases hempty : bytes = []
  · -- an empty chunk is dropped
    rw [if_pos hempty] at hpush
    obtain rfl := Except.ok.inj hpush
    have hsame : ({ r with accepted := r.accepted ++ (some bytes).toList.filter (· ≠ []) }.settle
        (r.queue, [])) = r := by
      simp [settle, hempty]
    rw [hsame]
    exact h
  · rw [if_neg hempty] at hpush
    have haccepted : r.accepted ++ (some bytes).toList.filter (· ≠ []) = r.accepted ++ [bytes] := by
      simp [hempty]
    rw [haccepted]
    have hwaiting : r.queue.waiters =
        List.range' r.accepted.length (r.reads - r.accepted.length) :=
      h.waiters.trans (if_pos hopen)
    have hright : ∀ s ∈ r.settled,
        ∃ bytes', (r.accepted ++ [bytes])[s.read]? = some bytes' ∧ s.outcome = .chunk bytes' := by
      intro s hs
      rcases h.right s hs with ⟨bytes', hbytes, houtcome⟩ | ⟨-, -, -, hover⟩
      · obtain ⟨hlt, -⟩ := List.getElem?_eq_some_iff.1 hbytes
        exact ⟨bytes', (List.getElem?_append_left hlt).trans hbytes, houtcome⟩
      · exact absurd (hopen.2.symm.trans (hover hopen.1)) nofun
    cases hwaiters : r.queue.waiters with
    | nil =>
      -- nobody waits: the chunk is kept for a later read
      simp only [hwaiters] at hpush
      obtain rfl := Except.ok.inj hpush
      have hreads : r.reads ≤ r.accepted.length := by
        rw [hwaiters] at hwaiting
        have hlength := congrArg List.length hwaiting
        rw [length_nil, length_range'] at hlength
        omega
      have hover : r.reads ≤ (r.accepted ++ [bytes]).length := by
        rw [length_append]
        omega
      refine h.of_settle rfl ?_ ?_ h.closed hopen.1.symm nodup_nil nofun ?_ ?_
      · show r.queue.chunks ++ [bytes] = (r.accepted ++ [bytes]).drop r.reads
        rw [h.chunks, drop_append_of_le_length hreads]
      · show [] = waiting { r with accepted := r.accepted ++ [bytes] }
        rw [waiting, if_pos hopen]
        show [] = List.range' _ (r.reads - _)
        rw [Nat.sub_eq_zero_of_le hover, range'_zero]
      · intro i
        rw [mem_waiting, mem_waiting]
        simp only [map_nil, not_mem_nil, or_false]
        omega
      · intro s hs
        rw [settle, map_nil, append_nil] at hs
        exact .inl (hright s hs)
    | cons waiter waiters =>
      -- the read that has waited longest gets the chunk
      simp only [hwaiters] at hpush
      obtain rfl := Except.ok.inj hpush
      rw [hwaiters] at hwaiting
      obtain ⟨n, hn⟩ : ∃ n, r.reads - r.accepted.length = n + 1 := by
        have hlength := congrArg List.length hwaiting
        rw [length_cons, length_range'] at hlength
        exact ⟨waiters.length, hlength.symm⟩
      rw [hn, range'_succ] at hwaiting
      obtain ⟨rfl, rfl⟩ := List.cons.inj hwaiting
      have hlength : (r.accepted ++ [bytes]).length = r.accepted.length + 1 := length_append
      refine h.of_settle rfl ?_ ?_ h.closed hopen.1.symm (nodup_singleton _) ?_ ?_ ?_
      · show r.queue.chunks = (r.accepted ++ [bytes]).drop r.reads
        rw [h.chunks, drop_eq_nil_of_le (by omega), drop_eq_nil_of_le (by omega)]
      · show List.range' (r.accepted.length + 1) n =
          waiting { r with accepted := r.accepted ++ [bytes] }
        rw [waiting, if_pos hopen, hlength]
        show _ = List.range' _ (r.reads - (r.accepted.length + 1))
        rw [← Nat.sub_sub, hn, Nat.add_sub_cancel]
      · intro i hi hlt
        exact mem_waiting.2 ⟨hopen, (mem_singleton.1 hi).ge, hlt⟩
      · intro i
        rw [mem_waiting, mem_waiting]
        simp only [map_cons, map_nil, mem_singleton, hopen.1, hopen.2, and_self, true_and, hlength]
        omega
      · intro s hs
        refine .inl ?_
        rcases mem_append.1 hs with hold | hnew
        · exact hright s hold
        · obtain rfl := mem_singleton.1 hnew
          exact ⟨bytes, List.getElem?_concat_length, rfl⟩

/-- The waiters of a stream that ends, or fails, are settled. -/
theorem settleAll {failure : Option ε} {finished : Bool} {queue : ByteQueue ε}
    (hqueue : queue.chunks = r.queue.chunks ∧ queue.waiters = r.queue.waiters ∧
      queue.closed = finished ∧ queue.error = failure)
    (hover : failure = none → finished = true)
    {outcome : ReadEnd ε} (houtcome : r.waiting ≠ [] → outcome = closing failure) :
    ({ r with failure, finished }.settle (queue.settleWaiters outcome)).Sound := by
  have hnone : waiting { r with failure, finished } = [] := by
    refine waiting_of_not_open ?_
    rintro ⟨hfailure, hfinished⟩
    exact absurd ((hover hfailure).symm.trans hfinished) nofun
  have hreads : (queue.settleWaiters outcome).2.map Prod.fst = r.waiting := by
    rw [ByteQueue.settleWaiters, map_map, hqueue.2.1, h.waiters]
    exact map_id _
  refine h.of_settle rfl (hqueue.1.trans h.chunks) hnone.symm hqueue.2.2.1 hqueue.2.2.2 ?_ ?_ ?_ ?_
  · rw [hreads, waiting]
    split_ifs
    · exact nodup_range'
    · exact nodup_nil
  · exact fun i hi _ => hreads ▸ hi
  · intro i
    rw [hreads, hnone]
    constructor
    · rintro (⟨hlt, -⟩ | hmem)
      · exact ⟨hlt, not_mem_nil⟩
      · exact ⟨(mem_waiting.1 hmem).2.2, not_mem_nil⟩
    · rintro ⟨hlt, -⟩
      by_cases hmem : i ∈ r.waiting
      · exact .inr hmem
      · exact .inl ⟨hlt, hmem⟩
  · intro s hs
    rcases mem_append.1 hs with hold | hnew
    · rcases h.right s hold with hchunk | ⟨hle, hend, hfinished, -⟩
      · exact .inl hchunk
      · exact .inr ⟨hle, hend, hfinished, hover⟩
    · obtain ⟨read, hread, rfl⟩ := mem_map.1 hnew
      have hmem : read.1 ∈ r.waiting := hreads ▸ mem_map_of_mem hread
      refine .inr ⟨(mem_waiting.1 hmem).2.1, ?_, hover, hover⟩
      obtain ⟨waiter, -, rfl⟩ := mem_map.1 hread
      exact houtcome (ne_nil_of_mem hmem)

theorem read :
    ({ r with reads := r.reads + 1 }.settle (r.queue.readChunk r.reads)).Sound := by
  have hchunks := h.chunks
  -- a read that is settled at once
  have hsettled : ∀ (outcome : ReadEnd ε) (chunks : List Bytes),
      chunks = r.accepted.drop (r.reads + 1) →
      (r.reads < r.accepted.length ∨ ¬(r.failure = none ∧ r.finished = false)) →
      ((∃ bytes, r.accepted[r.reads]? = some bytes ∧ outcome = .chunk bytes) ∨
        (r.accepted.length ≤ r.reads ∧ outcome = closing r.failure ∧
          (r.failure = none → r.finished = true) ∧ (r.failure = none → r.finished = true))) →
      ({ r with reads := r.reads + 1 }.settle
        ({ r.queue with chunks }, [(r.reads, outcome)])).Sound := by
    intro outcome chunks hrest hnow houtcome
    have hwaiting : waiting { r with reads := r.reads + 1 } = r.waiting := by
      rw [waiting, waiting]
      split_ifs with hopen
      · have hlt := hnow.resolve_right (not_not_intro hopen)
        rw [Nat.sub_eq_zero_of_le (by omega : r.reads ≤ _)]
        show List.range' r.accepted.length (r.reads + 1 - r.accepted.length) = _
        rw [Nat.sub_eq_zero_of_le (by omega)]
      · rfl
    have hfresh : r.reads ∉ r.waiting := fun hmem => absurd (mem_waiting.1 hmem).2.2 (lt_irrefl _)
    refine h.of_settle rfl hrest (h.waiters.trans hwaiting.symm) h.closed h.error
      (nodup_singleton _) ?_ ?_ ?_
    · exact fun i hi hlt => absurd (mem_singleton.1 hi) (Nat.ne_of_lt hlt)
    · intro i
      show _ ∨ i ∈ [r.reads] ↔ i < r.reads + 1 ∧ i ∉ waiting { r with reads := r.reads + 1 }
      rw [hwaiting, mem_singleton, Nat.lt_succ_iff_lt_or_eq, or_and_right]
      refine or_congr_right (and_iff_left_of_imp ?_).symm
      rintro rfl
      exact hfresh
    · intro s hs
      rcases mem_append.1 hs with hold | hnew
      · exact h.right s hold
      · obtain rfl := mem_singleton.1 hnew
        exact houtcome
  unfold ByteQueue.readChunk
  split
  next bytes chunks hcons =>
    rw [hcons] at hchunks
    have hlt : r.reads < r.accepted.length := by
      by_contra hge
      rw [drop_eq_nil_of_le (not_lt.1 hge)] at hchunks
      exact absurd hchunks (cons_ne_nil _ _)
    rw [drop_eq_getElem_cons hlt] at hchunks
    obtain ⟨rfl, hrest⟩ := List.cons.inj hchunks
    exact hsettled _ chunks hrest (.inl hlt) (.inl ⟨_, List.getElem?_eq_getElem hlt, rfl⟩)
  next error hnil herror =>
    rw [hnil] at hchunks
    have hle : r.accepted.length ≤ r.reads := drop_eq_nil_iff.1 hchunks.symm
    have hfailure : r.failure = some error := h.error.symm.trans herror
    have hover : r.failure = none → r.finished = true :=
      fun hnone => absurd (hnone.symm.trans hfailure) nofun
    refine hsettled (.rejected error) r.queue.chunks ?_ (.inr ?_)
      (.inr ⟨hle, by rw [hfailure]; rfl, hover, hover⟩)
    · rw [hnil, drop_eq_nil_of_le (by omega)]
    · exact fun hopen => absurd (hopen.1.symm.trans hfailure) nofun
  next hnil herror =>
    rw [hnil] at hchunks
    have hle : r.accepted.length ≤ r.reads := drop_eq_nil_iff.1 hchunks.symm
    have hfailure : r.failure = none := h.error.symm.trans herror
    split_ifs with hclosed
    · have hfinished : r.finished = true := h.closed.symm.trans hclosed
      refine hsettled .ended r.queue.chunks ?_ (.inr ?_)
        (.inr ⟨hle, by rw [hfailure]; rfl, fun _ => hfinished, fun _ => hfinished⟩)
      · rw [hnil, drop_eq_nil_of_le (by omega)]
      · exact fun hopen => absurd (hopen.2.symm.trans hfinished) nofun
    · -- the read waits
      rw [h.closed, Bool.not_eq_true] at hclosed
      have hopen : r.failure = none ∧ r.finished = false := ⟨hfailure, hclosed⟩
      have hwaiting : waiting { r with reads := r.reads + 1 } = r.waiting ++ [r.reads] := by
        rw [waiting, waiting, if_pos hopen, if_pos hopen]
        show List.range' r.accepted.length (r.reads + 1 - r.accepted.length) = _
        rw [Nat.sub_add_comm hle, List.range'_1_concat, Nat.add_sub_cancel' hle]
      refine h.of_settle rfl ?_ ?_ h.closed h.error nodup_nil nofun ?_ ?_
      · show r.queue.chunks = r.accepted.drop (r.reads + 1)
        rw [hnil, drop_eq_nil_of_le (by omega)]
      · show r.queue.waiters ++ [r.reads] = waiting { r with reads := r.reads + 1 }
        rw [hwaiting, h.waiters]
      · intro i
        show _ ∨ i ∈ [] ↔ i < r.reads + 1 ∧ i ∉ waiting { r with reads := r.reads + 1 }
        rw [hwaiting, mem_append, mem_singleton, not_or, or_iff_left not_mem_nil]
        constructor
        · rintro ⟨hlt, hmem⟩
          exact ⟨by omega, hmem, by omega⟩
        · rintro ⟨hlt, hmem, hne⟩
          exact ⟨by omega, hmem⟩
      · intro s hs
        rw [settle, map_nil, append_nil] at hs
        exact h.right s hs

/-- Every event keeps the queues in step with the numbers. -/
theorem step (errors : QueueErrors ε) (event : QueueEvent ε) :
    (r.step errors event).Sound := by
  cases event with
  | push =>
    rw [QueueRun.step]
    split
    · exact h
    next next' hpush => exact h.push hpush
  | finish =>
    rw [QueueRun.step]
    split
    · exact h
    next next' hfinish =>
      rw [ByteQueue.finish] at hfinish
      split at hfinish
      · exact absurd hfinish nofun
      obtain rfl := Except.ok.inj hfinish
      apply h.settleAll
      · exact ⟨rfl, rfl, rfl, h.error⟩
      · exact fun _ => rfl
      · intro hne
        obtain ⟨i, hi⟩ := exists_mem_of_ne_nil _ hne
        rw [(mem_waiting.1 hi).1.1]
        rfl
  | fail error =>
    rw [QueueRun.step, ByteQueue.fail]
    split
    next error' herror =>
      have hfailure : r.failure = some error' := h.error.symm.trans herror
      have hsame : ({ r with failure := r.failure.or (some error) }.settle (r.queue, [])) = r := by
        obtain ⟨queue, reads, settled, accepted, failure, finished⟩ := r
        obtain rfl : failure = some error' := hfailure
        simp [settle]
      rw [hsame]
      exact h
    next hnone =>
      have hfailure : r.failure = none := h.error.symm.trans hnone
      rw [hfailure, Option.none_or]
      apply h.settleAll
      · exact ⟨rfl, rfl, h.closed, rfl⟩
      · exact nofun
      · exact fun _ => rfl
  | read => exact h.read

end Sound

/-- What an event makes of the stream whose waiters are counted. -/
def streamStep (alreadyClosed : ε) (s : ByteStream ε) : QueueEvent ε → ByteStream ε
  | .push none => s
  | .push (some bytes) => (s.push alreadyClosed bytes).toOption.getD s
  | .finish => (s.finish alreadyClosed).toOption.getD s
  | .fail error => s.fail error
  | .read => s.readChunk.2

theorem toStream_step (errors : QueueErrors ε) (r : QueueRun ε) (event : QueueEvent ε) :
    (r.step errors event).queue.toStream =
      streamStep errors.alreadyClosed r.queue.toStream event := by
  cases event with
  | push chunk =>
    cases chunk with
    | none =>
      have hthrows : ∃ error, r.queue.push errors none = .error error := by
        unfold ByteQueue.push
        split
        · exact ⟨_, rfl⟩
        · cases r.queue.error <;> exact ⟨_, rfl⟩
      obtain ⟨error, herror⟩ := hthrows
      rw [step, herror]
      rfl
    | some bytes =>
      rw [streamStep, ← ByteQueue.toStream_push, step]
      cases r.queue.push errors (some bytes) <;> rfl
  | finish =>
    rw [streamStep, ← ByteQueue.toStream_finish, step]
    cases r.queue.finish errors <;> rfl
  | fail error => exact ByteQueue.toStream_fail error r.queue
  | read => exact ByteQueue.toStream_readChunk r.reads r.queue

/-- After every run the stream with its waiters is the one in which they are counted, and the next
read gets from it what the other one promises. -/
theorem refines (errors : QueueErrors ε) (events : List (QueueEvent ε)) (read : ℕ) :
    (runAll (step errors) start events).queue.toStream =
        runAll (streamStep errors.alreadyClosed) .new events ∧
      ((runAll (step errors) start events).queue.readChunk read).2 =
        (runAll (streamStep errors.alreadyClosed) .new events).readChunk.1.settled.map
          (read, ·) := by
  have hstream : (runAll (step errors) start events).queue.toStream =
      runAll (streamStep errors.alreadyClosed) .new events :=
    (foldl_hom (fun r : QueueRun ε => r.queue.toStream)
      fun r event => (toStream_step errors r event).symm).symm
  exact ⟨hstream, by rw [ByteQueue.settled_readChunk, hstream]⟩

end QueueRun

end WasmHost

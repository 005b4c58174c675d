import WasmHost.Lib.Transit
import WasmHost.Wasi.PipeCounts

/-!
# The byte stream of a pipe

What goes through one pipe, over any interleaving of writes through its write ends and reads
through its read ends, by any runtimes. `Traffic` keeps next to the host the bytes that successful
reads have delivered and the bytes that successful writes have gathered from the guest memory.

A write declares the sum of the lengths in its table and stores that many bytes, but it gathers
only the bytes that lie inside the memory; the rest of what it stores is zero.
`Traffic.lawful_iff` says that this is the only way in which a pipe fails to be a bounded
first-in, first-out stream.
-/

namespace WasmHost

/-- The arguments of a call that moves bytes, with the memory it finds. -/
structure Transfer where
  mem : Memory
  fd : Int
  iovsPtr : Int
  iovsLen : Int
  /-- Where the number of bytes goes. -/
  countPtr : Int

namespace Transfer

variable (io : Transfer)

/-- The memory after the number of bytes has been set to zero, with the iov table in it. -/
def table : Option (Memory × List Iov) :=
  match io.mem.writeU32 io.countPtr 0 with
  | none => none
  | some mem => (readIovs mem io.iovsLen.toNat io.iovsPtr).map fun iovs => (mem, iovs)

/-- The bytes of the guest memory that the table covers. -/
def gathered : Bytes :=
  match io.table with
  | none => []
  | some (mem, iovs) => (iovs.map fun iov => iov.chunk mem).flatten

/-- The sum of the lengths in the table. -/
def declared : ℕ :=
  match io.table with
  | none => 0
  | some (_, iovs) => (iovs.map Iov.dataLength).sum

/-- Every entry of the table is empty or lies inside the memory. -/
def InRange : Prop := ∀ mem iovs, io.table = some (mem, iovs) → ∀ iov ∈ iovs, iov.InRange mem

/-- The bytes of a buffer that a read stores into the memory. -/
def delivered (buffer : Bytes) : Bytes :=
  match io.mem.writeU32 io.countPtr 0 with
  | none => []
  | some mem =>
      match readIntoIovs mem buffer 0 io.iovsPtr io.iovsLen with
      | none => []
      | some s => s.delivered

/-- A write is not rejected: its table lies in the memory, the descriptor may write, somebody can
read, and there is room. -/
def Accepted (w : World) (file : OpenFile) (pipe : ℕ) : Prop :=
  io.table.isSome = true ∧ hasRight file.rights rightFdWrite = true ∧
    (w.host.pipes.get pipe).readers ≠ 0 ∧
    (w.host.pipes.get pipe).bytes.length + io.declared ≤ pipeBufferLimit

theorem length_gathered_le : io.gathered.length ≤ io.declared := by
  unfold gathered declared
  cases io.table with
  | none => exact Nat.le_refl 0
  | some t =>
    rw [List.length_flatten]
    exact sum_length_le t.1 t.2

/-- Everything declared is gathered exactly when the table is in range. -/
theorem length_gathered_eq_iff : io.gathered.length = io.declared ↔ io.InRange := by
  unfold gathered declared InRange
  cases io.table with
  | none => simp
  | some t =>
    rw [List.length_flatten, sum_length_eq_iff]
    simp only [Option.some.injEq]
    constructor
    · rintro h mem iovs rfl
      exact h
    · intro h
      exact h t.1 t.2 rfl

end Transfer

variable {bytes : Bytes} {total : ℕ}

theorem zeroPad_of_length (h : bytes.length = total) : zeroPad bytes total = bytes := by
  simp [zeroPad, h]

theorem length_zeroPad (h : bytes.length ≤ total) : (zeroPad bytes total).length = total := by
  simp only [zeroPad, List.length_append, List.length_replicate]
  omega

namespace World

variable {w : World} {file : OpenFile} {pipe : ℕ}

theorem bytes_setPipeBytes (w : World) (pipe : ℕ) (bytes : Bytes) :
    ((w.setPipeBytes pipe bytes).host.pipes.get pipe).bytes = bytes := by
  simp [setPipeBytes, setHost, Host.modifyPipe]

/-- A write through a write end is accepted, appends as many bytes as it declares and reports
their number, or it fails and changes nothing. -/
theorem fdWrite_spec (io : Transfer) (hfile : w.openFile io.fd = some file)
    (hkind : file.kind = .pipe .write pipe) :
    let result := w.fdWrite io.mem io.fd io.iovsPtr io.iovsLen io.countPtr
    (io.Accepted w file pipe ∧ result.2.2 = .ok () ∧
        result.1 = w.setPipeBytes pipe
          ((w.host.pipes.get pipe).bytes ++ zeroPad io.gathered io.declared) ∧
        result.2.1.readU32 io.countPtr = some (io.declared % 2 ^ 32)) ∨
      (¬io.Accepted w file pipe ∧ result.1 = w ∧ ∃ failure, result.2.2 = .error failure) := by
  have hwrite : w.fdWrite io.mem io.fd io.iovsPtr io.iovsLen io.countPtr =
      w.fdWritePipe io.mem file .write pipe io.iovsPtr io.iovsLen io.countPtr := by
    simp only [fdWrite, hfile, hkind]
  intro result
  have hresult : result = w.fdWritePipe io.mem file .write pipe io.iovsPtr io.iovsLen io.countPtr :=
    hwrite
  clear_value result
  unfold fdWritePipe at hresult
  cases hmem : io.mem.writeU32 io.countPtr 0 with
  | none =>
    rw [hmem] at hresult
    refine .inr ⟨fun h => ?_, by rw [hresult], _, by rw [hresult]⟩
    simp [Transfer.Accepted, Transfer.table, hmem] at h
  | some mem₀ =>
    simp only [hmem, ne_eq, not_true_eq_false, if_false] at hresult
    by_cases hright : hasRight file.rights rightFdWrite = true
    · rw [if_neg (by simp [hright])] at hresult
      by_cases hreaders : (w.host.pipes.get pipe).readers = 0
      · rw [if_pos hreaders] at hresult
        exact .inr ⟨fun h => h.2.2.1 hreaders, by rw [hresult], _, by rw [hresult]⟩
      · rw [if_neg hreaders] at hresult
        have hchunks : readIovChunks mem₀ io.iovsPtr io.iovsLen =
            (readIovs mem₀ io.iovsLen.toNat io.iovsPtr).map fun iovs =>
              ⟨iovs.map fun iov => iov.chunk mem₀, (iovs.map Iov.dataLength).sum⟩ := rfl
        cases hiovs : readIovs mem₀ io.iovsLen.toNat io.iovsPtr with
        | none =>
          rw [hchunks, hiovs] at hresult
          refine .inr ⟨fun h => ?_, by rw [hresult]; rfl, .throws, by rw [hresult]; rfl⟩
          simp [Transfer.Accepted, Transfer.table, hmem, hiovs] at h
        | some iovs =>
          have htable : io.table = some (mem₀, iovs) := by
            simp [Transfer.table, hmem, hiovs]
          have hgathered : io.gathered = (iovs.map fun iov => iov.chunk mem₀).flatten := by
            simp only [Transfer.gathered, htable]
          have hdeclared : io.declared = (iovs.map Iov.dataLength).sum := by
            simp only [Transfer.declared, htable]
          rw [hchunks, hiovs, Option.map_some] at hresult
          dsimp only at hresult
          rw [← hgathered, ← hdeclared] at hresult
          by_cases hfull : pipeBufferLimit < (w.host.pipes.get pipe).bytes.length + io.declared
          · rw [if_pos hfull] at hresult
            exact .inr ⟨fun h => absurd h.2.2.2 (not_le.2 hfull), by rw [hresult], _,
              by rw [hresult]⟩
          · rw [if_neg hfull] at hresult
            have hptr := (io.mem.writeU32_isSome_iff io.countPtr 0).1 (by rw [hmem]; rfl)
            have hfinish := readU32_finishU32 mem₀
              ((io.mem.byteLength_of_writeU32 hmem).symm ▸ hptr) io.declared
            refine .inl ⟨⟨by rw [htable]; rfl, hright, hreaders, not_lt.1 hfull⟩, ?_, ?_, ?_⟩
            · rw [hresult]
              exact hfinish.1
            · rw [hresult]
              rfl
            · rw [hresult]
              exact hfinish.2
    · rw [if_pos (by simpa using hright)] at hresult
      exact .inr ⟨fun h => hright h.2.1, by rw [hresult], _, by rw [hresult]⟩

/-- A read through a read end takes from the front of the buffer what it delivers, or it fails and
changes nothing. -/
theorem fdRead_spec (io : Transfer) (hfile : w.openFile io.fd = some file)
    (hkind : file.kind = .pipe .read pipe) :
    let result := w.fdRead io.mem io.fd io.iovsPtr io.iovsLen io.countPtr
    let buffer := (w.host.pipes.get pipe).bytes
    (∃ n, result.2.2 = .ok () ∧ io.delivered buffer = buffer.take n ∧
        (result.1.host.pipes.get pipe).bytes = buffer.drop n) ∨
      (result.1 = w ∧ ∃ failure, result.2.2 = .error failure) := by
  obtain ⟨kind, mount, path, rights, fdflags⟩ := file
  obtain rfl : kind = .pipe .read pipe := hkind
  have hread : w.fdRead io.mem io.fd io.iovsPtr io.iovsLen io.countPtr =
      w.fdReadPipe io.mem ⟨.pipe .read pipe, mount, path, rights, fdflags⟩ .read pipe io.iovsPtr
        io.iovsLen io.countPtr := by
    simp only [fdRead, hfile]
  intro result buffer
  have hresult : result = w.fdReadPipe io.mem ⟨.pipe .read pipe, mount, path, rights, fdflags⟩
      .read pipe io.iovsPtr io.iovsLen io.countPtr := hread
  clear_value result
  unfold fdReadPipe at hresult
  cases hmem : io.mem.writeU32 io.countPtr 0 with
  | none =>
    rw [hmem] at hresult
    exact .inr ⟨by rw [hresult], _, by rw [hresult]⟩
  | some mem₀ =>
    simp only [hmem, ne_eq, not_true_eq_false, if_false] at hresult
    by_cases hright : hasRight rights rightFdRead = true
    · rw [if_neg (by simp [hright])] at hresult
      by_cases hempty : (w.host.pipes.get pipe).bytes = []
      · rw [if_pos hempty] at hresult
        by_cases hwriters : 0 < (w.host.pipes.get pipe).writers
        · rw [if_pos hwriters] at hresult
          exact .inr ⟨by rw [hresult], _, by rw [hresult]⟩
        · rw [if_neg hwriters] at hresult
          have hnothing : io.delivered buffer = [] := by
            have hbuffer : buffer = [] := hempty
            unfold Transfer.delivered
            rw [hmem, hbuffer]
            dsimp only
            split
            · rfl
            next s hs => simpa using readIntoIovs_delivered hs
          refine .inl ⟨0, by rw [hresult], by rw [hnothing, List.take_zero], ?_⟩
          rw [hresult]
          rfl
      · rw [if_neg hempty] at hresult
        cases hs : readIntoIovs mem₀ (w.host.pipes.get pipe).bytes 0 io.iovsPtr io.iovsLen with
        | none =>
          rw [hs] at hresult
          exact .inr ⟨by rw [hresult], _, by rw [hresult]⟩
        | some s =>
          rw [hs] at hresult
          have hsize : s.mem.byteLength = io.mem.byteLength :=
            (byteLength_scatter hs).trans (io.mem.byteLength_of_writeU32 hmem)
          have hptr := (io.mem.writeU32_isSome_iff io.countPtr 0).1 (by rw [hmem]; rfl)
          have hfinish := readU32_finishU32 s.mem (hsize.symm ▸ hptr) s.total
          refine .inl ⟨s.total, ?_, ?_, ?_⟩
          · rw [hresult]
            exact hfinish.1
          · have hdelivered : io.delivered buffer = s.delivered := by
              unfold Transfer.delivered
              rw [hmem]
              dsimp only
              rw [show buffer = (w.host.pipes.get pipe).bytes from rfl, hs]
            rw [hdelivered]
            exact readIntoIovs_delivered hs
          · rw [hresult]
            simp [setHost, Host.modifyPipe, buffer]
    · rw [if_pos (by simpa using hright)] at hresult
      exact .inr ⟨by rw [hresult], _, by rw [hresult]⟩

end World

/-! ### Interleavings -/

/-- The host, with what has gone through a pipe. -/
structure Traffic where
  host : Host
  delivered : Bytes
  gathered : Bytes

/-- A call of a runtime through an end of the pipe, or anything else that happens in between. -/
inductive PipeCall
  | write (runtime : Runtime) (io : Transfer)
  | read (runtime : Runtime) (io : Transfer)
  | other (host : Host)

namespace Traffic

variable (pipe : ℕ)

/-- Nothing has gone through the pipe yet. -/
def start (host : Host) : Traffic := ⟨host, [], []⟩

def buffer (t : Traffic) : Bytes := (t.host.pipes.get pipe).bytes

def stream (t : Traffic) : Transit UInt8 := ⟨t.delivered, t.buffer pipe, t.gathered⟩

/-- The traffic behind a call. -/
def step (t : Traffic) : PipeCall → Traffic
  | .write runtime io =>
      let result := World.fdWrite ⟨t.host, runtime⟩ io.mem io.fd io.iovsPtr io.iovsLen io.countPtr
      { host := result.1.host
        delivered := t.delivered
        gathered := if result.2.2.isOk then t.gathered ++ io.gathered else t.gathered }
  | .read runtime io =>
      let result := World.fdRead ⟨t.host, runtime⟩ io.mem io.fd io.iovsPtr io.iovsLen io.countPtr
      { host := result.1.host
        delivered :=
          if result.2.2.isOk then t.delivered ++ io.delivered (t.buffer pipe) else t.delivered
        gathered := t.gathered }
  | .other host => { t with host := host }

/-- The call goes through a write end or a read end of the pipe; what happens in between leaves
its buffer alone. -/
def OnPipe (t : Traffic) : PipeCall → Prop
  | .write runtime io =>
      ∃ file, runtime.openFiles.get io.fd = some file ∧ file.kind = .pipe .write pipe
  | .read runtime io =>
      ∃ file, runtime.openFiles.get io.fd = some file ∧ file.kind = .pipe .read pipe
  | .other host => (host.pipes.get pipe).bytes = t.buffer pipe

/-- A successful write reports how many bytes it appended; a failing one appends nothing. -/
def Reports (t : Traffic) : PipeCall → Prop
  | .write runtime io =>
      let result := World.fdWrite ⟨t.host, runtime⟩ io.mem io.fd io.iovsPtr io.iovsLen io.countPtr
      let after := (result.1.host.pipes.get pipe).bytes
      match result.2.2 with
      | .ok () => ∃ appended : Bytes, after = t.buffer pipe ++ appended ∧
          result.2.1.readU32 io.countPtr = some appended.length
      | .error _ => after = t.buffer pipe
  | _ => True

/-- The table of a write that is not rejected is in range. -/
def Clean (t : Traffic) : PipeCall → Prop
  | .write runtime io => ∀ file, runtime.openFiles.get io.fd = some file →
      io.Accepted ⟨t.host, runtime⟩ file pipe → io.InRange
  | _ => True

/-- The pipe is a bounded first-in, first-out stream so far. -/
structure Lawful (t : Traffic) : Prop where
  fifo : (t.stream pipe).Fifo
  bounded : (t.buffer pipe).length ≤ pipeBufferLimit

variable {pipe} {t : Traffic} {c : PipeCall}

/-- What a call does to the stream: it takes from its front, or puts what it declares at its end
for what it has gathered. -/
theorem stream_step (hon : OnPipe pipe t c) :
    (Clean pipe t c ∧ ∃ n, (step pipe t c).stream pipe = (t.stream pipe).take n) ∨
      ∃ io : Transfer, (Clean pipe t c ↔ io.InRange) ∧
        (t.buffer pipe).length + io.declared ≤ pipeBufferLimit ∧
        (step pipe t c).stream pipe =
          (t.stream pipe).put (zeroPad io.gathered io.declared) io.gathered := by
  have hnothing : (t.stream pipe).take 0 = t.stream pipe := by
    simp [Transit.take]
  cases c with
  | write runtime io =>
    obtain ⟨file, hfile, hkind⟩ := hon
    rcases World.fdWrite_spec (w := ⟨t.host, runtime⟩) io hfile hkind with
      ⟨haccepted, hok, hworld, -⟩ | ⟨hrejected, hworld, failure, herror⟩
    · refine .inr ⟨io, ⟨fun h => h file hfile haccepted, fun h _ _ _ => h⟩, haccepted.2.2.2, ?_⟩
      simp only [step, stream, buffer, Transit.put, hok, hworld, World.bytes_setPipeBytes]
      rfl
    · refine .inl ⟨fun file' hfile' h => ?_, 0, ?_⟩
      · rw [hfile] at hfile'
        rw [← Option.some.inj hfile'] at h
        exact absurd h hrejected
      · rw [hnothing]
        simp only [step, stream, buffer, herror, hworld]
        rfl
  | read runtime io =>
    obtain ⟨file, hfile, hkind⟩ := hon
    refine .inl ⟨trivial, ?_⟩
    rcases World.fdRead_spec (w := ⟨t.host, runtime⟩) io hfile hkind with
      ⟨n, hok, hdelivered, hrest⟩ | ⟨hworld, failure, herror⟩
    · refine ⟨n, ?_⟩
      simp only [step, stream, buffer, Transit.take, hok, hrest]
      simp only [Except.isOk, Except.toBool, if_true, hdelivered]
    · refine ⟨0, ?_⟩
      rw [hnothing]
      simp only [step, stream, buffer, herror, hworld]
      rfl
  | other =>
    refine .inl ⟨trivial, 0, ?_⟩
    rw [hnothing]
    simp only [step, stream, buffer]
    exact congrArg (Transit.mk t.delivered · t.gathered) hon

theorem length_stored (io : Transfer) :
    io.gathered.length ≤ (zeroPad io.gathered io.declared).length := by
  rw [length_zeroPad io.length_gathered_le]
  exact io.length_gathered_le

/-- A call never loses a byte. -/
theorem covered_step (hon : OnPipe pipe t c) (h : (t.stream pipe).Covered) :
    ((step pipe t c).stream pipe).Covered := by
  rcases stream_step hon with ⟨-, n, heq⟩ | ⟨io, -, -, heq⟩
  · rw [heq]
    exact Transit.covered_take n h
  · rw [heq]
    exact Transit.covered_put (length_stored io) h

/-- The surplus of the stream never goes away, and grows with every write out of range. -/
theorem surplus_step (hon : OnPipe pipe t c) (h : (t.stream pipe).Covered) :
    (t.stream pipe).surplus ≤ ((step pipe t c).stream pipe).surplus ∧
      (((step pipe t c).stream pipe).surplus = 0 → Clean pipe t c) := by
  rcases stream_step hon with ⟨hclean, n, heq⟩ | ⟨io, hclean, -, heq⟩
  · rw [heq, Transit.surplus_take]
    exact ⟨le_refl _, fun _ => hclean⟩
  · rw [heq, Transit.surplus_put (length_stored io) h, length_zeroPad io.length_gathered_le]
    refine ⟨Nat.le_add_right _ _, fun hzero => ?_⟩
    rw [hclean, ← io.length_gathered_eq_iff]
    have := io.length_gathered_le
    omega

/-- A clean call keeps the law. -/
theorem lawful_step (h : Lawful pipe t) (hon : OnPipe pipe t c) (hclean : Clean pipe t c) :
    Lawful pipe (step pipe t c) := by
  rcases stream_step hon with ⟨-, n, heq⟩ | ⟨io, hinRange, hroom, heq⟩
  · refine ⟨?_, ?_⟩
    · rw [heq]
      exact Transit.fifo_take n h.fifo
    · have hbuffer : (step pipe t c).buffer pipe = (t.buffer pipe).drop n :=
        congrArg Transit.buffer heq
      rw [hbuffer, List.length_drop]
      have := h.bounded
      omega
  · have hlength := io.length_gathered_eq_iff.2 (hinRange.1 hclean)
    rw [zeroPad_of_length hlength] at heq
    refine ⟨?_, ?_⟩
    · rw [heq]
      exact Transit.fifo_put _ h.fifo
    · have hbuffer : (step pipe t c).buffer pipe = t.buffer pipe ++ io.gathered :=
        congrArg Transit.buffer heq
      rw [hbuffer, List.length_append, hlength]
      exact hroom

/-- The number a write reports is right whether or not its table is in range. -/
theorem reports_step (hon : OnPipe pipe t c) : Reports pipe t c := by
  cases c with
  | write runtime io =>
    obtain ⟨file, hfile, hkind⟩ := hon
    have hlimit : pipeBufferLimit < 2 ^ 32 := by decide
    rcases World.fdWrite_spec (w := ⟨t.host, runtime⟩) io hfile hkind with
      ⟨haccepted, hok, hworld, hcount⟩ | ⟨-, hworld, failure, herror⟩
    · simp only [Reports, hok, hworld, World.bytes_setPipeBytes]
      refine ⟨zeroPad io.gathered io.declared, rfl, ?_⟩
      have hroom := haccepted.2.2.2
      rw [hcount, length_zeroPad io.length_gathered_le, Nat.mod_eq_of_lt (by omega)]
    · simp only [Reports, herror, hworld]
      rfl
  | read | other => trivial

variable {calls : List PipeCall}

theorem covered_runAll {t : Traffic} (hon : Along (step pipe) (OnPipe pipe) t calls)
    (h : (t.stream pipe).Covered) :
    (t.stream pipe).surplus ≤ ((runAll (step pipe) t calls).stream pipe).surplus := by
  induction calls generalizing t with
  | nil => exact le_refl _
  | cons c calls ih =>
    exact (surplus_step hon.1 h).1.trans (ih hon.2 (covered_step hon.1 h))

theorem clean_of_surplus_eq_zero {t : Traffic} (hon : Along (step pipe) (OnPipe pipe) t calls)
    (h : (t.stream pipe).Covered) (hzero : ((runAll (step pipe) t calls).stream pipe).surplus = 0) :
    Along (step pipe) (Clean pipe) t calls := by
  induction calls generalizing t with
  | nil => trivial
  | cons c calls ih =>
    have hcovered := covered_step hon.1 h
    refine ⟨(surplus_step hon.1 h).2 ?_, ih hon.2 hcovered hzero⟩
    exact Nat.le_zero.1 ((covered_runAll hon.2 hcovered).trans (le_of_eq hzero))

theorem along_reports {t : Traffic} (hon : Along (step pipe) (OnPipe pipe) t calls) :
    Along (step pipe) (Reports pipe) t calls := by
  induction calls generalizing t with
  | nil => trivial
  | cons c calls ih => exact ⟨reports_step hon.1, ih hon.2⟩

/-- A pipe that starts empty has been a bounded first-in, first-out stream, with every write
reporting what it appended, exactly when no accepted write had an entry of its table that reaches
past the end of the memory. -/
theorem lawful_iff {host : Host} (hempty : (host.pipes.get pipe).bytes = [])
    {calls : List PipeCall} (hon : Along (step pipe) (OnPipe pipe) (start host) calls) :
    Lawful pipe (runAll (step pipe) (start host) calls) ∧
        Along (step pipe) (Reports pipe) (start host) calls ↔
      Along (step pipe) (Clean pipe) (start host) calls := by
  have hstart : Lawful pipe (start host) :=
    ⟨by simp [Transit.Fifo, stream, start, buffer, hempty], by simp [start, buffer, hempty]⟩
  constructor
  · intro h
    exact clean_of_surplus_eq_zero hon hstart.fifo.covered h.1.fifo.surplus_eq_zero
  · intro hclean
    refine ⟨?_, along_reports hon⟩
    exact (Always.of_along (fun _ _ h hc => lawful_step h hc.1 hc.2) hstart (hon.and hclean)).last

/-- One byte is written and read again. -/
def oneByte : List PipeCall :=
  [.write System.newPipe.runtime ⟨iovMemory, 6, 8, 1, 24⟩,
    .read System.newPipe.runtime ⟨iovMemory, 5, 8, 1, 24⟩]

theorem lawful_oneByte : Lawful 0 (runAll (step 0) (start System.newPipe.host) oneByte) := by
  have hon : Along (step 0) (OnPipe 0) (start System.newPipe.host) oneByte :=
    ⟨⟨_, rfl, rfl⟩, ⟨_, rfl, rfl⟩, trivial⟩
  have hclean : Along (step 0) (Clean 0) (start System.newPipe.host) oneByte := by
    refine ⟨fun _ _ _ mem iovs htable iov hiov => ?_, trivial, trivial⟩
    obtain ⟨rfl, rfl⟩ := Prod.mk.inj (Option.some.inj htable)
    obtain rfl := List.mem_singleton.1 hiov
    decide
  exact ((lawful_iff rfl hon).2 hclean).1

/-- A memory with one entry of an iov table at 8, which lies behind the end of the memory. -/
def outOfRangeMemory : Memory :=
  ⟨64, fun i => if i = 8 then 64 else if i = 12 then 1 else 0⟩

/-- A write of one byte that lies behind the end of the memory succeeds, and a zero that nobody
has written is buffered. -/
theorem not_fifo_newPipe :
    ∃ calls, Along (step 0) (OnPipe 0) (start System.newPipe.host) calls ∧
      ¬((runAll (step 0) (start System.newPipe.host) calls).stream 0).Fifo := by
  refine ⟨[.write System.newPipe.runtime ⟨outOfRangeMemory, 6, 8, 1, 24⟩],
    ⟨⟨_, rfl, rfl⟩, trivial⟩, ?_⟩
  unfold Transit.Fifo
  decide

end Traffic

end WasmHost

import WasmHost.Wasi.HostBuffers
import WasmHost.Wasi.PipeCounts

/-!
# Pointers and buffers inside the memory

When the accesses of an import go through. A pointer from `2 ^ 31` on arrives as a negative number,
and a store at a negative address throws even where the memory is that large; a table of buffers
lies inside the memory, the buffers it names need not.

* `readIovChunksWithin_eq_none_iff`: when a gather throws.
* `readIntoIovs_eq_none_iff`: when a scatter throws.
* `writeChunksWithin_isError_iff`: when a file cannot be grown for the chunks it gets.
-/

namespace WasmHost

open List

namespace Memory

variable (mem : Memory) {bytes : Bytes}

/-- The address is an `i32` of the guest, and that many bytes from it on lie inside the memory. -/
def Inside (ptr : Int) (size : ℕ) : Prop :=
  -2 ^ 31 ≤ ptr ∧ ptr < 2 ^ 31 ∧ toUint32 ptr + size ≤ mem.byteLength

/-- The bounds of a memory can be checked. -/
instance (ptr : Int) (size : ℕ) : Decidable (mem.Inside ptr size) :=
  inferInstanceAs (Decidable (_ ∧ _))

variable {ptr : Int} {size : ℕ}

/-- The memory with the same size. -/
theorem Inside.congr {mem mem' : Memory} (h : mem.Inside ptr size)
    (hlength : mem'.byteLength = mem.byteLength) : mem'.Inside ptr size := by
  unfold Inside at *
  rwa [hlength]

theorem Inside.mono {mem : Memory} {size' : ℕ} (h : mem.Inside ptr size) (hsize : size' ≤ size) :
    mem.Inside ptr size' := by
  obtain ⟨hlow, hhigh, hle⟩ := h
  exact ⟨hlow, hhigh, by omega⟩

/-- An address below `2 ^ 31` is the number it arrives as. -/
theorem Inside.add_le {mem : Memory} (h : mem.Inside ptr size) (hptr : 0 ≤ ptr) :
    ptr + size ≤ mem.byteLength := by
  obtain ⟨-, hlt, hle⟩ := h
  unfold toUint32 at hle
  omega

theorem writeU32_eq_none_iff {mem : Memory} (h : mem.Inside ptr 4) (value : ℕ) :
    mem.writeU32 ptr value = none ↔ ptr < 0 := by
  have hle := h.add_le
  unfold writeU32
  split <;> simp <;> omega

theorem writeU64_eq_none_iff {mem : Memory} (h : mem.Inside ptr 8) (value : ℕ) :
    mem.writeU64 ptr value = none ↔ ptr < 0 := by
  have hle := h.add_le
  unfold writeU64
  split <;> simp <;> omega

theorem writeStruct_eq_none_iff {mem : Memory} (h : mem.Inside ptr bytes.length) :
    mem.writeStruct ptr bytes = none ↔ ptr < 0 := by
  have hle := h.add_le
  unfold writeStruct
  split <;> simp <;> omega

theorem canWriteU32_of_inside {mem : Memory} (h : mem.Inside ptr 4) : mem.canWriteU32 ptr = true :=
  decide_eq_true h.2.2

theorem finishStruct_throws_iff {mem : Memory} (h : mem.Inside ptr bytes.length) :
    (mem.finishStruct ptr bytes).2 = .error .throws ↔ ptr < 0 := by
  rw [← writeStruct_eq_none_iff h]
  unfold finishStruct
  cases mem.writeStruct ptr bytes <;> simp

/-- Storing a result throws, or the call ends as it was going to. -/
theorem finishU32_throws_iff {mem : Memory} (h : mem.Inside ptr 4) (value : ℕ)
    (result : Except Failure Unit) :
    (mem.finishU32 ptr value result).2 = .error .throws ↔ ptr < 0 ∨ result = .error .throws := by
  rw [← writeU32_eq_none_iff h value]
  unfold finishU32
  cases mem.writeU32 ptr value <;> simp

/-- A store of nothing. -/
theorem store_nil (start : ℕ) : mem.store start [] = mem := by
  simp [store]

end Memory

/-! ### Gather -/

variable {mem : Memory} {iovPtr iovsPtr iovsLen : Int} {count : ℕ} {allocates : ℕ → Bool}

theorem readIov_isSome (h0 : 0 ≤ iovPtr) (h : iovPtr + 8 ≤ mem.byteLength) :
    (readIov mem iovPtr).isSome = true := by
  unfold readIov Memory.readU32
  rw [if_pos (by omega), if_pos (by omega)]
  rfl

/-- A table inside the memory is read to its end. -/
theorem readIovs_isSome (count : ℕ) (h0 : 0 ≤ iovPtr) (h : iovPtr + 8 * count ≤ mem.byteLength) :
    (readIovs mem count iovPtr).isSome = true := by
  induction count generalizing iovPtr with
  | zero => rfl
  | succ count ih =>
    push_cast at h
    have hentry : (readIov mem iovPtr).isSome = true := readIov_isSome h0 (by omega)
    obtain ⟨iov, hiov⟩ := Option.isSome_iff_exists.1 hentry
    have hrest : (readIovs mem count (iovPtr + 8)).isSome = true := ih (by omega) (by omega)
    rw [readIovs, hiov]
    simpa using hrest

/-- A table at a negative address is not read. -/
theorem readIovs_eq_none_of_neg (h : iovPtr < 0) (hcount : count ≠ 0) :
    readIovs mem count iovPtr = none := by
  obtain ⟨count, rfl⟩ := Nat.exists_eq_succ_of_ne_zero hcount
  have hiov : readIov mem iovPtr = none := by
    unfold readIov Memory.readU32
    rw [if_neg (by omega)]
  rw [Nat.succ_eq_add_one, readIovs, hiov]

/-- The table of a transfer lies inside the memory. -/
def TableInside (mem : Memory) (iovsPtr iovsLen : Int) : Prop :=
  mem.Inside iovsPtr (8 * iovsLen.toNat)

/-- The table is at an address that arrives as a negative number. -/
def TableNegative (iovsPtr iovsLen : Int) : Prop := iovsPtr < 0 ∧ 0 < iovsLen

/-- The address of a table can be checked. -/
instance (iovsPtr iovsLen : Int) : Decidable (TableNegative iovsPtr iovsLen) :=
  inferInstanceAs (Decidable (_ ∧ _))

/-- A table that can be read is read to its end. -/
theorem exists_readIovs (hinside : TableInside mem iovsPtr iovsLen)
    (hneg : ¬TableNegative iovsPtr iovsLen) :
    ∃ iovs, readIovs mem iovsLen.toNat iovsPtr = some iovs := by
  rw [← Option.isSome_iff_exists]
  by_cases h0 : 0 ≤ iovsPtr
  · have hle := Memory.Inside.add_le hinside h0
    exact readIovs_isSome _ h0 (by push_cast at hle ⊢; exact hle)
  · have hcount : iovsLen.toNat = 0 := by
      unfold TableNegative at hneg
      omega
    rw [hcount]
    rfl

/-- The entries of a gather, which are those of the table. -/
def gathered (mem : Memory) (iovsPtr iovsLen : Int) : List Iov :=
  (readIovs mem iovsLen.toNat iovsPtr).getD []

/-- The chunks of a gather. -/
def gatheredChunks (mem : Memory) (iovsPtr iovsLen : Int) : List Bytes :=
  (gathered mem iovsPtr iovsLen).map fun iov => iov.chunk mem

/-- The length that a gather declares. -/
def declaredLength (mem : Memory) (iovsPtr iovsLen : Int) : ℕ :=
  ((gathered mem iovsPtr iovsLen).map Iov.dataLength).sum

/-- A gather throws: its table is at a negative address, or a copy of some chunk is refused. -/
def GatherThrows (allocates : ℕ → Bool) (mem : Memory) (iovsPtr iovsLen : Int) : Prop :=
  TableNegative iovsPtr iovsLen ∨
    ∃ chunk ∈ gatheredChunks mem iovsPtr iovsLen, allocates chunk.length = false

theorem readIovChunksWithin_eq_none_iff (h : TableInside mem iovsPtr iovsLen) :
    readIovChunksWithin allocates mem iovsPtr iovsLen = none ↔
      GatherThrows allocates mem iovsPtr iovsLen := by
  unfold readIovChunksWithin readIovChunks GatherThrows gatheredChunks gathered
  by_cases hneg : TableNegative iovsPtr iovsLen
  · have hnone : readIovs mem iovsLen.toNat iovsPtr = none :=
      readIovs_eq_none_of_neg hneg.1 (by have := hneg.2; omega)
    rw [hnone]
    exact iff_of_true rfl (.inl hneg)
  · obtain ⟨iovs, hiovs⟩ := exists_readIovs h hneg
    rw [hiovs]
    simp [hneg, Option.filter_eq_none_iff]

/-- What a gather returns. -/
theorem readIovChunksWithin_eq_some {c : IovChunks}
    (h : readIovChunksWithin allocates mem iovsPtr iovsLen = some c) :
    c = ⟨gatheredChunks mem iovsPtr iovsLen, declaredLength mem iovsPtr iovsLen⟩ := by
  obtain ⟨hread, -⟩ := Option.filter_eq_some_iff.1 h
  obtain ⟨iovs, hiovs, rfl⟩ := Option.map_eq_some_iff.1 hread
  unfold gatheredChunks declaredLength gathered
  rw [hiovs]
  rfl

/-! ### Scatter -/

/-- The buffers that a read of `input` fills, in order: an entry of the table is what the buffers
before it leave of it, and gets what they leave of the input. -/
def buffers : ℕ → Int → Memory → Bytes → List (ℕ × Bytes)
  | 0, _, _, _ => []
  | count + 1, iovPtr, mem, input =>
      if input = [] then []
      else
        match readIov mem iovPtr with
        | none => []
        | some iov =>
            (iov.dataPtr, input.take iov.dataLength) ::
              buffers count (iovPtr + 8) (mem.store iov.dataPtr (input.take iov.dataLength))
                (input.drop iov.dataLength)

/-- Some bytes of a buffer lie outside the memory. -/
def Overruns (mem : Memory) (buffer : ℕ × Bytes) : Prop :=
  buffer.2 ≠ [] ∧ mem.byteLength < buffer.1 + buffer.2.length

/-- What is left behind a leading part. -/
theorem drop_length_take {α : Type} (l : List α) (n : ℕ) :
    l.drop (l.take n).length = l.drop n := by
  rw [length_take]
  rcases le_total n l.length with hle | hge
  · rw [Nat.min_eq_left hle]
  · rw [Nat.min_eq_right hge, drop_length, drop_eq_nil_of_le hge]

/-- The outcome of a scatter from a state of it on: it throws if some buffer overruns, and fills
the buffers otherwise. -/
theorem scatter_spec (input : Bytes) (count : ℕ) (h0 : 0 ≤ iovPtr) (s : Scatter)
    (h : iovPtr + 8 * count ≤ s.mem.byteLength) :
    (scatter input count iovPtr s = none ↔
      ∃ b ∈ buffers count iovPtr s.mem (input.drop s.total), Overruns s.mem b) ∧
    ∀ t, scatter input count iovPtr s = some t → t.total = s.total +
      ((buffers count iovPtr s.mem (input.drop s.total)).map fun b => b.2.length).sum := by
  induction count generalizing iovPtr s with
  | zero => simp [scatter, buffers]
  | succ count ih =>
    push_cast at h
    have htotal : (s.stores.map fun st => st.2.length).sum = s.total := sum_length_stores s
    rw [scatter, buffers]
    simp only [htotal]
    by_cases hdone : input.length ≤ s.total
    · have hrest : input.drop s.total = [] := drop_eq_nil_of_le hdone
      simp [hdone, hrest]
    have hrest : input.drop s.total ≠ [] := by simpa using hdone
    have hentry : (readIov s.mem iovPtr).isSome = true := readIov_isSome h0 (by omega)
    obtain ⟨iov, hiov⟩ := Option.isSome_iff_exists.1 hentry
    have hnext : 0 ≤ iovPtr + 8 := by omega
    rw [if_neg hdone, if_neg hrest, hiov]
    dsimp only
    by_cases hempty : (input.drop s.total).take iov.dataLength = []
    · -- an empty buffer is stored nowhere, so it may lie anywhere
      have hlength : iov.dataLength = 0 := by
        rcases take_eq_nil_iff.1 hempty with hzero | hnil
        · exact hzero
        · exact absurd hnil hrest
      have hsame := ih hnext s (by omega)
      rw [if_pos hempty, hempty, Memory.store_nil, hlength, drop_zero]
      simpa [Overruns] using hsame
    · rw [if_neg hempty]
      by_cases hfits : iov.dataPtr + ((input.drop s.total).take iov.dataLength).length ≤
          s.mem.byteLength
      · rw [show s.mem.setBytes iov.dataPtr ((input.drop s.total).take iov.dataLength) =
          some (s.mem.store iov.dataPtr ((input.drop s.total).take iov.dataLength)) from
            if_pos hfits]
        set bytes := (input.drop s.total).take iov.dataLength with hbytes
        set s' : Scatter := ⟨s.mem.store iov.dataPtr bytes, s.stores ++ [(iov.dataPtr, bytes)]⟩
          with hs'
        have htotal' : s'.total = s.total + bytes.length := by
          simp [hs', Scatter.total, Scatter.delivered]
        have hdrop : input.drop s'.total = (input.drop s.total).drop iov.dataLength := by
          rw [htotal', hbytes, ← drop_drop, drop_length_take]
        obtain ⟨hnone, hsome⟩ := ih hnext s' (by
          change iovPtr + 8 + 8 * count ≤ s.mem.byteLength
          omega)
        rw [hdrop] at hnone hsome
        have hnot : ¬Overruns s.mem (iov.dataPtr, bytes) := fun hover => Nat.not_lt.2 hfits hover.2
        refine ⟨?_, fun t ht => ?_⟩
        · rw [hnone, exists_mem_cons_iff, or_iff_right hnot]
          exact Iff.rfl
        · rw [hsome t ht, htotal']
          simp [hs', Nat.add_assoc]
      · rw [show s.mem.setBytes iov.dataPtr ((input.drop s.total).take iov.dataLength) = none from
          if_neg hfits]
        refine ⟨iff_of_true rfl ⟨_, mem_cons_self, hempty, Nat.not_le.1 hfits⟩, ?_⟩
        intro t ht
        cases ht

/-- The buffers of a read. -/
def readBuffers (mem : Memory) (input : Bytes) (iovsPtr iovsLen : Int) : List (ℕ × Bytes) :=
  buffers iovsLen.toNat iovsPtr mem input

/-- A read of this input throws: its table is at a negative address, or some buffer overruns the
memory. -/
def ScatterThrows (mem : Memory) (input : Bytes) (iovsPtr iovsLen : Int) : Prop :=
  TableNegative iovsPtr iovsLen ∧ input ≠ [] ∨
    ∃ b ∈ readBuffers mem input iovsPtr iovsLen, Overruns mem b

theorem scatter_eq_none_of_neg {input : Bytes} (h : iovPtr < 0) (hcount : count ≠ 0)
    (hinput : input ≠ []) : scatter input count iovPtr ⟨mem, []⟩ = none := by
  obtain ⟨count, rfl⟩ := Nat.exists_eq_succ_of_ne_zero hcount
  have hiov : readIov mem iovPtr = none := by
    unfold readIov Memory.readU32
    rw [if_neg (by omega)]
  have hlength : ¬input.length ≤ 0 := by simpa using hinput
  rw [Nat.succ_eq_add_one, scatter]
  simp [hlength, hiov]

section

variable {mem : Memory} {input : Bytes} {inputOffset : ℕ} {iovsPtr iovsLen : Int} {s : Scatter}

theorem readIntoIovs_eq_none_iff (h : TableInside mem iovsPtr iovsLen) :
    readIntoIovs mem input inputOffset iovsPtr iovsLen = none ↔
      ScatterThrows mem (input.drop inputOffset) iovsPtr iovsLen := by
  unfold readIntoIovs ScatterThrows readBuffers
  by_cases h0 : 0 ≤ iovsPtr
  · have hle := Memory.Inside.add_le h h0
    have hspec := (scatter_spec (input.drop inputOffset) iovsLen.toNat h0 ⟨mem, []⟩
      (by push_cast at hle; exact hle)).1
    rw [hspec, or_iff_right fun hneg => absurd hneg.1.1 (by omega)]
    exact Iff.rfl
  · by_cases hcount : iovsLen.toNat = 0
    · have hneg : ¬TableNegative iovsPtr iovsLen := fun hneg => by
        have := hneg.2
        omega
      simp [hcount, hneg, scatter, buffers]
    · have hneg : TableNegative iovsPtr iovsLen := ⟨by omega, by omega⟩
      by_cases hinput : input.drop inputOffset = []
      · obtain ⟨count, hcount'⟩ := Nat.exists_eq_succ_of_ne_zero hcount
        rw [hinput, hcount', Nat.succ_eq_add_one, scatter, buffers]
        simp
      · exact iff_of_true (scatter_eq_none_of_neg (by omega) hcount hinput) (.inl ⟨hneg, hinput⟩)

/-- What a read takes of its input. -/
theorem total_of_readIntoIovs (h : TableInside mem iovsPtr iovsLen)
    (hs : readIntoIovs mem input 0 iovsPtr iovsLen = some s) :
    s.total = ((readBuffers mem input iovsPtr iovsLen).map fun b => b.2.length).sum := by
  unfold readBuffers
  by_cases hcount : iovsLen.toNat = 0
  · rw [readIntoIovs, hcount] at hs
    rw [hcount, ← Option.some.inj hs]
    rfl
  by_cases hinput : input = []
  · obtain ⟨count, hcount'⟩ := Nat.exists_eq_succ_of_ne_zero hcount
    rw [readIntoIovs, hinput, hcount', Nat.succ_eq_add_one, scatter] at hs
    rw [hinput, hcount', Nat.succ_eq_add_one, buffers, ← Option.some.inj hs]
    rfl
  have h0 : 0 ≤ iovsPtr := by
    by_contra hneg
    have hnone : scatter input iovsLen.toNat iovsPtr ⟨mem, []⟩ = none :=
      scatter_eq_none_of_neg (Int.not_le.1 hneg) hcount hinput
    rw [readIntoIovs, drop_zero, hnone] at hs
    cases hs
  have hle := Memory.Inside.add_le h h0
  have hspec := (scatter_spec input iovsLen.toNat h0 ⟨mem, []⟩
    (by push_cast at hle; exact hle)).2 s hs
  simpa [Scatter.total, Scatter.delivered] using hspec

/-- Storing the number of bytes read throws only at a negative address. -/
theorem finishU32_readIntoIovs_throws_iff {ptr : Int} (hptr : mem.Inside ptr 4)
    (hs : readIntoIovs mem input inputOffset iovsPtr iovsLen = some s) (value : ℕ) :
    (s.mem.finishU32 ptr value (.ok ())).2 = .error .throws ↔ ptr < 0 := by
  rw [Memory.finishU32_throws_iff (hptr.congr (World.byteLength_scatter hs))]
  simp

end

/-! ### Growing files -/

/-- Where the chunks of a write end that starts at an offset. -/
def chunkEnds : ℕ → List Bytes → List ℕ
  | _, [] => []
  | offset, chunk :: chunks => (offset + chunk.length) :: chunkEnds (offset + chunk.length) chunks

/-- Some chunk ends behind a file of this length, where the host does not grant that many bytes. -/
def GrowthRefused (allocates : ℕ → Bool) (length offset : ℕ) (chunks : List Bytes) : Prop :=
  ∃ n ∈ chunkEnds offset chunks, length < n ∧ allocates n = false

theorem le_of_mem_chunkEnds {offset n : ℕ} {chunks : List Bytes} (h : n ∈ chunkEnds offset chunks) :
    offset ≤ n := by
  induction chunks generalizing offset with
  | nil => cases h
  | cons chunk chunks ih =>
    rcases mem_cons.1 h with rfl | hrest
    · exact Nat.le_add_right _ _
    · exact (Nat.le_add_right _ _).trans (ih hrest)

theorem length_writeChunk (bytes : Bytes) (offset : ℕ) (chunk : Bytes) :
    (writeChunk bytes offset chunk).length = max bytes.length (offset + chunk.length) := by
  simp only [writeChunk, zeroPad, length_append, length_take, length_drop, length_replicate]
  omega

/-- The loop of a write stops exactly when a length it needs is refused. A chunk that ends at the
end that an earlier chunk has reached needs nothing more. -/
theorem writeChunksWithin_isError_iff (allocates : ℕ → Bool) (loop : WriteLoop)
    (chunks : List Bytes) :
    (∃ loop', writeChunksWithin allocates loop chunks = .error loop') ↔
      GrowthRefused allocates loop.bytes.length loop.offset chunks := by
  unfold GrowthRefused
  induction chunks generalizing loop with
  | nil => simp [writeChunksWithin, chunkEnds]
  | cons chunk chunks ih =>
    rw [writeChunksWithin, chunkEnds, exists_mem_cons_iff]
    by_cases hrefused : loop.bytes.length < loop.offset + chunk.length ∧
        allocates (loop.offset + chunk.length) = false
    · rw [if_pos hrefused]
      exact iff_of_true ⟨loop, rfl⟩ (.inl hrefused)
    · rw [if_neg hrefused, ih, or_iff_right hrefused]
      change (∃ n ∈ chunkEnds (loop.offset + chunk.length) chunks,
        (writeChunk loop.bytes loop.offset chunk).length < n ∧ _) ↔ _
      refine exists_congr fun n => and_congr_right fun hn => ?_
      rw [length_writeChunk]
      have hle := le_of_mem_chunkEnds hn
      constructor
      · rintro ⟨hlt, hn⟩
        exact ⟨by omega, hn⟩
      · rintro ⟨hlt, hn⟩
        refine ⟨?_, hn⟩
        by_contra hnot
        obtain rfl : n = loop.offset + chunk.length := by omega
        exact hrefused ⟨hlt, hn⟩

end WasmHost

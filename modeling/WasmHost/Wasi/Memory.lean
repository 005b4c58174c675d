import WasmHost.Wasi.State

/-!
# Linear memory

The guest's linear memory as the imports see it. Pointers are the signed numbers an `i32`
argument arrives as; an access outside the memory throws, except for `slice`, which clamps.

`WasmHost.readIovChunks` gathers the chunks of a write and `WasmHost.readIntoIovs` scatters the
bytes of a read. The total a write declares is the sum of the lengths in the table, whether or
not the chunks are that long (`total_readIovChunks_eq_iff`).
-/

namespace WasmHost

open List

/-- A linear memory. -/
structure Memory where
  byteLength : ℕ
  byte : ℕ → UInt8

/-- Why a call did not succeed. -/
inductive Failure
  | errno (errno : Errno)
  /-- A host exception, which ends the guest. -/
  | throws
  deriving DecidableEq, Repr

namespace Memory

variable (mem : Memory) {ptr : Int} {value : ℕ}

/-- Reads four bytes. -/
def readU32 (ptr : Int) : Option ℕ :=
  if 0 ≤ ptr ∧ ptr + 4 ≤ mem.byteLength then
    let at' := fun i => (mem.byte (ptr.toNat + i)).toNat
    some (at' 0 + 2 ^ 8 * at' 1 + 2 ^ 16 * at' 2 + 2 ^ 24 * at' 3)
  else none

/-- `bytes().slice(start, start + length)`. -/
def slice (start length : ℕ) : Bytes :=
  (List.range' start (min length (mem.byteLength - start))).map mem.byte

/-- Store bytes that lie inside the memory. -/
def store (start : ℕ) (bytes : Bytes) : Memory :=
  { mem with byte := fun i =>
      if start ≤ i then (bytes[i - start]?).getD (mem.byte i) else mem.byte i }

/-- `bytes().set(source, start)`. -/
def setBytes (start : ℕ) (bytes : Bytes) : Option Memory :=
  if start + bytes.length ≤ mem.byteLength then some (mem.store start bytes) else none

/-- Writes four bytes. -/
def writeU32 (ptr : Int) (value : ℕ) : Option Memory :=
  if 0 ≤ ptr ∧ ptr + 4 ≤ mem.byteLength then
    some (mem.store ptr.toNat
      [UInt8.ofNat value, UInt8.ofNat (value / 2 ^ 8), UInt8.ofNat (value / 2 ^ 16),
        UInt8.ofNat (value / 2 ^ 24)])
  else none

/-- Writes eight bytes. -/
def writeU64 (ptr : Int) (value : ℕ) : Option Memory :=
  if 0 ≤ ptr ∧ ptr + 8 ≤ mem.byteLength then
    some (mem.store ptr.toNat ((List.range 8).map fun i => UInt8.ofNat (value / 2 ^ (8 * i))))
  else none

def canWriteU32 (ptr : Int) : Bool := toUint32 ptr + 4 ≤ mem.byteLength

/-- Store a result and finish with it. -/
def finishU32 (ptr : Int) (value : ℕ) (result : Except Failure Unit) :
    Memory × Except Failure Unit :=
  match mem.writeU32 ptr value with
  | some mem' => (mem', result)
  | none => (mem, .error .throws)

@[simp]
theorem length_slice (start length : ℕ) :
    (mem.slice start length).length = min length (mem.byteLength - start) := by
  simp [slice]

@[simp]
theorem byteLength_store (start : ℕ) (bytes : Bytes) :
    (mem.store start bytes).byteLength = mem.byteLength := rfl

variable {mem' : Memory}

theorem byteLength_of_setBytes {start : ℕ} {bytes : Bytes}
    (h : mem.setBytes start bytes = some mem') : mem'.byteLength = mem.byteLength := by
  unfold setBytes at h
  split at h
  · rw [← Option.some.inj h]
    rfl
  · cases h

theorem byteLength_of_writeU32 (h : mem.writeU32 ptr value = some mem') :
    mem'.byteLength = mem.byteLength := by
  unfold writeU32 at h
  split at h
  · rw [← Option.some.inj h]
    rfl
  · cases h

/-- A stored word is read back modulo `2 ^ 32`. -/
theorem readU32_writeU32 (h : mem.writeU32 ptr value = some mem') :
    mem'.readU32 ptr = some (value % 2 ^ 32) := by
  unfold writeU32 at h
  split at h
  next hptr =>
    rw [← Option.some.inj h]
    simp [readU32, store, hptr]
    omega
  · cases h

/-- Whether a word can be stored depends on the size of the memory only. -/
theorem writeU32_isSome_iff (ptr : Int) (value : ℕ) :
    (mem.writeU32 ptr value).isSome = true ↔ 0 ≤ ptr ∧ ptr + 4 ≤ mem.byteLength := by
  unfold writeU32
  split <;> simp_all

end Memory

/-! ### Scatter and gather -/

/-- An entry of an iov table: a pointer and a length. -/
structure Iov where
  dataPtr : ℕ
  dataLength : ℕ
  deriving DecidableEq, Repr

namespace Iov

/-- The bytes of the memory that the entry covers. -/
def chunk (iov : Iov) (mem : Memory) : Bytes := mem.slice iov.dataPtr iov.dataLength

/-- The entry is empty or lies inside the memory. -/
def InRange (iov : Iov) (mem : Memory) : Prop :=
  iov.dataLength = 0 ∨ iov.dataPtr + iov.dataLength ≤ mem.byteLength

/-- The bounds of a buffer can be checked. -/
instance (iov : Iov) (mem : Memory) : Decidable (iov.InRange mem) :=
  inferInstanceAs (Decidable (_ ∨ _))

theorem length_chunk_le (iov : Iov) (mem : Memory) :
    (iov.chunk mem).length ≤ iov.dataLength := by
  simp [chunk]

theorem length_chunk_eq_iff (iov : Iov) (mem : Memory) :
    (iov.chunk mem).length = iov.dataLength ↔ iov.InRange mem := by
  simp only [chunk, Memory.length_slice, InRange]
  omega

end Iov

/-- The entry of an iov table at a pointer. -/
def readIov (mem : Memory) (iovPtr : Int) : Option Iov :=
  match mem.readU32 iovPtr, mem.readU32 (iovPtr + 4) with
  | some dataPtr, some dataLength => some ⟨dataPtr, dataLength⟩
  | _, _ => none

/-- The entries of an iov table. `none`: part of the table lies outside the memory. -/
def readIovs (mem : Memory) : ℕ → Int → Option (List Iov)
  | 0, _ => some []
  | count + 1, iovPtr =>
      match readIov mem iovPtr with
      | none => none
      | some iov => (readIovs mem count (iovPtr + 8)).map (iov :: ·)

/-- The chunks of a gather, with the total of the declared lengths. -/
structure IovChunks where
  chunks : List Bytes
  total : ℕ

/-- Nothing is stored while the loop runs, so the whole table is read from one memory. -/
def readIovChunks (mem : Memory) (iovsPtr iovsLen : Int) : Option IovChunks :=
  (readIovs mem iovsLen.toNat iovsPtr).map fun iovs =>
    ⟨iovs.map fun iov => iov.chunk mem, (iovs.map Iov.dataLength).sum⟩

/-- A scatter in progress: the memory and the stores made so far. -/
structure Scatter where
  mem : Memory
  stores : List (ℕ × Bytes)

/-- The loop of `readIntoIovs`. It reads each entry of the table after the stores for the
entries before it, and stops when the input is used up. -/
def scatter (input : Bytes) : ℕ → Int → Scatter → Option Scatter
  | 0, _, s => some s
  | count + 1, iovPtr, s =>
      let offset := (s.stores.map fun st => st.2.length).sum
      if input.length ≤ offset then some s
      else
        match readIov s.mem iovPtr with
        | none => none
        | some iov =>
            let bytes := (input.drop offset).take iov.dataLength
            if bytes = [] then scatter input count (iovPtr + 8) s
            else
              match s.mem.setBytes iov.dataPtr bytes with
              | none => none
              | some mem =>
                  scatter input count (iovPtr + 8) ⟨mem, s.stores ++ [(iov.dataPtr, bytes)]⟩

/-- The bytes a scatter delivered, in order. -/
def Scatter.delivered (s : Scatter) : Bytes := (s.stores.map Prod.snd).flatten

/-- Copy `input` from `inputOffset` on into the buffers of an iov table. -/
def readIntoIovs (mem : Memory) (input : Bytes) (inputOffset : ℕ) (iovsPtr iovsLen : Int) :
    Option Scatter :=
  scatter (input.drop inputOffset) iovsLen.toNat iovsPtr ⟨mem, []⟩

/-- The number of bytes a scatter copied. -/
def Scatter.total (s : Scatter) : ℕ := s.delivered.length

theorem sum_length_stores (s : Scatter) :
    (s.stores.map fun st => st.2.length).sum = s.delivered.length := by
  simp [Scatter.delivered, length_flatten, Function.comp_def]

variable {input : Bytes} {t s : Scatter} {mem : Memory} {count inputOffset : ℕ}
    {iovPtr iovsPtr iovsLen : Int}

/-- A scatter delivers a leading part of its input. -/
theorem scatter_delivered (h : scatter input count iovPtr s = some t) (hs : s.delivered <+: input) :
    t.delivered <+: input := by
  induction count generalizing iovPtr s with
  | zero => rwa [← Option.some.inj h]
  | succ count ih =>
    rw [scatter] at h
    dsimp only at h
    split at h
    · rwa [← Option.some.inj h]
    next hlt =>
      split at h
      · cases h
      next iov hiov =>
        split at h
        · exact ih h hs
        next hne =>
          split at h
          · cases h
          next mem hmem =>
            refine ih h ?_
            have hd : Scatter.delivered ⟨mem, s.stores ++ [(iov.dataPtr,
                (input.drop (s.stores.map fun st => st.2.length).sum).take iov.dataLength)]⟩ =
                s.delivered ++ (input.drop s.delivered.length).take iov.dataLength := by
              rw [sum_length_stores]
              simp [Scatter.delivered]
            rw [hd]
            obtain ⟨rest, hrest⟩ := hs
            rw [← hrest, drop_left]
            exact prefix_append_right_inj _ |>.2 (List.take_prefix _ _)

/-- A read delivers a leading part of the input from its offset on. -/
theorem readIntoIovs_delivered (h : readIntoIovs mem input inputOffset iovsPtr iovsLen = some t) :
    t.delivered = (input.drop inputOffset).take t.total :=
  prefix_iff_eq_take.1 (scatter_delivered h (by simp [Scatter.delivered]))

theorem sum_length_le (mem : Memory) (iovs : List Iov) :
    ((iovs.map fun iov => iov.chunk mem).map List.length).sum ≤
      (iovs.map Iov.dataLength).sum := by
  rw [map_map]
  exact sum_le_sum fun iov _ => iov.length_chunk_le mem

/-- The chunks are as long as declared exactly when every entry is empty or in range. -/
theorem sum_length_eq_iff (iovs : List Iov) :
    ((iovs.map fun iov => iov.chunk mem).map List.length).sum =
      (iovs.map Iov.dataLength).sum ↔ ∀ iov ∈ iovs, iov.InRange mem := by
  induction iovs with
  | nil => simp
  | cons iov iovs ih =>
    have hle := sum_length_le mem iovs
    have hhead := iov.length_chunk_le mem
    simp only [map_cons, sum_cons, forall_mem_cons, ← ih, ← iov.length_chunk_eq_iff mem]
    omega

/-- A gather never has more bytes than it declares. -/
theorem length_flatten_readIovChunks_le {c : IovChunks}
    (h : readIovChunks mem iovsPtr iovsLen = some c) : c.chunks.flatten.length ≤ c.total := by
  obtain ⟨iovs, -, rfl⟩ := Option.map_eq_some_iff.1 h
  rw [length_flatten]
  exact sum_length_le mem iovs

/-- A scatter keeps the stores it has made. -/
theorem scatter_stores (h : scatter input count iovPtr s = some t) : s.stores <+: t.stores := by
  induction count generalizing iovPtr s with
  | zero => rw [← Option.some.inj h]
  | succ count ih =>
    rw [scatter] at h
    dsimp only at h
    split at h
    · rw [← Option.some.inj h]
    split at h
    · cases h
    next iov hiov =>
      split at h
      · exact ih h
      split at h
      · cases h
      next mem hmem => exact (prefix_append _ _).trans (ih h)

/-- A scatter of a non-empty input copies nothing exactly when every entry of the table is
empty. -/
theorem scatter_total_eq_zero_iff (mem : Memory) (hinput : input ≠ []) (count : ℕ) (iovPtr : Int) :
    (∃ t, scatter input count iovPtr ⟨mem, []⟩ = some t ∧ t.total = 0) ↔
      ∃ iovs, readIovs mem count iovPtr = some iovs ∧ ∀ iov ∈ iovs, iov.dataLength = 0 := by
  induction count generalizing iovPtr with
  | zero => simp [scatter, readIovs, Scatter.total, Scatter.delivered]
  | succ count ih =>
    have hlength : ¬input.length ≤ 0 := by simpa using hinput
    rw [scatter, readIovs]
    simp only [map_nil, sum_nil, hlength, if_false, drop_zero]
    cases hiov : readIov mem iovPtr with
    | none => simp
    | some iov =>
      by_cases hzero : iov.dataLength = 0
      · simp [hzero, ih]
      · have hne : input.take iov.dataLength ≠ [] := by simp [hzero, hinput]
        simp only [hne, if_false]
        refine iff_of_false ?_ ?_
        · rintro ⟨t, ht, htotal⟩
          split at ht
          · cases ht
          next mem' hmem =>
            obtain ⟨rest, hrest⟩ := scatter_stores ht
            have hdelivered : t.delivered ≠ [] := by
              simp [Scatter.delivered, ← hrest, hne]
            exact hdelivered (length_eq_zero_iff.1 htotal)
        · rintro ⟨iovs, hiovs, hall⟩
          obtain ⟨rest, -, rfl⟩ := Option.map_eq_some_iff.1 hiovs
          exact hzero (hall iov mem_cons_self)

/-- A memory with one entry of an iov table at 8, which covers the first byte. -/
def iovMemory : Memory := ⟨64, fun i => if i = 12 then 1 else 0⟩

/-- A read into it takes exactly the next byte of an input that has one. -/
theorem readIntoIovs_iovMemory (h : inputOffset < input.length) :
    ∃ s, readIntoIovs iovMemory input inputOffset 8 1 = some s ∧ s.total = 1 ∧
      s.mem.byteLength = 64 := by
  obtain ⟨b, rest, hrest⟩ : ∃ b rest, input.drop inputOffset = b :: rest :=
    exists_cons_of_ne_nil (by simpa using h)
  have hiov : readIov iovMemory 8 = some ⟨0, 1⟩ := by decide
  have hset : iovMemory.setBytes 0 [b] = some (iovMemory.store 0 [b]) :=
    if_pos (by simp [iovMemory])
  refine ⟨⟨iovMemory.store 0 [b], [(0, [b])]⟩, ?_, rfl, rfl⟩
  rw [readIntoIovs, hrest, show (1 : Int).toNat = 1 from rfl, scatter]
  simp [hiov, hset, scatter]

end WasmHost

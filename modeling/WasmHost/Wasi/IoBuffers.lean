import WasmHost.Lib.ByteMemory
import WasmHost.Wasi.PipeCounts

/-!
# Buffers

What the guest has to pass so that a read or a write takes place as its table says: the table and
the word for the result lie in the memory, and nothing that is stored on the way overwrites the
table.

* `IoBuffer.readIntoIovs`: a read fills the buffer as far as the input goes.
-/

namespace WasmHost

open ByteMemory

variable {mem : Memory} {iovsPtr iovsLen ptr : Int} {size start : ℕ} {bytes : Bytes}

/-- A table of buffers with `size` bytes in all, and a word for the result. -/
structure IoBuffer (mem : Memory) (iovsPtr iovsLen ptr : Int) (size : ℕ) : Prop where
  table : ∃ iovs, readIovs mem iovsLen.toNat iovsPtr = some iovs ∧
    (iovs.map Iov.dataLength).sum = size ∧
    ∀ iov ∈ iovs, iov.InRange mem ∧
      Apart iov.dataPtr iov.dataLength iovsPtr.toNat (8 * iovsLen.toNat)
  small : size < 2 ^ 32
  word : 0 ≤ ptr ∧ ptr + 4 ≤ mem.byteLength
  apart : Apart ptr.toNat 4 iovsPtr.toNat (8 * iovsLen.toNat)

namespace Memory

variable {start : ℕ} {bytes : Bytes}

theorem byte_store_of_apart {i : ℕ} (h : i < start ∨ start + bytes.length ≤ i) :
    (mem.store start bytes).byte i = mem.byte i := by
  rcases h with hlt | hle
  · exact ByteMemory.write_of_lt mem.byte bytes hlt
  · exact ByteMemory.write_of_ge mem.byte bytes hle

theorem readU32_store {ptr : Int} (h : Apart start bytes.length ptr.toNat 4) :
    (mem.store start bytes).readU32 ptr = mem.readU32 ptr := by
  have hbyte :
      ∀ i < 4, (mem.store start bytes).byte (ptr.toNat + i) = mem.byte (ptr.toNat + i) := by
    intro i hi
    by_cases hempty : bytes.length = 0
    · refine byte_store_of_apart ?_
      omega
    · unfold Apart at h
      refine byte_store_of_apart ?_
      omega
  unfold readU32
  dsimp only
  rw [byteLength_store, hbyte 0 (by omega), hbyte 1 (by omega), hbyte 2 (by omega),
    hbyte 3 (by omega)]

end Memory

variable {iovPtr : Int} {count : ℕ}

/-- There is no entry at a negative address. -/
theorem readIov_of_neg (mem : Memory) (h : iovPtr < 0) : readIov mem iovPtr = none := by
  unfold readIov
  rw [show mem.readU32 iovPtr = none from if_neg (by omega)]

theorem nonneg_of_readIov {iov : Iov} (h : readIov mem iovPtr = some iov) : 0 ≤ iovPtr := by
  by_contra hneg
  rw [readIov_of_neg mem (Int.not_le.1 hneg)] at h
  cases h

theorem readIov_store (h : Apart start bytes.length iovPtr.toNat (8 * (count + 1))) :
    readIov (mem.store start bytes) iovPtr = readIov mem iovPtr := by
  by_cases hneg : iovPtr < 0
  · rw [readIov_of_neg _ hneg, readIov_of_neg _ hneg]
  · unfold Apart at h
    unfold readIov
    rw [Memory.readU32_store (by unfold Apart; omega),
      Memory.readU32_store (by unfold Apart; omega)]

/-- A store outside the table leaves the table. -/
theorem readIovs_store (h : Apart start bytes.length iovPtr.toNat (8 * count)) :
    readIovs (mem.store start bytes) count iovPtr = readIovs mem count iovPtr := by
  induction count generalizing iovPtr with
  | zero => rfl
  | succ count ih =>
    rw [readIovs, readIovs, readIov_store h]
    cases hiov : readIov mem iovPtr with
    | none => rfl
    | some =>
      have hpos := nonneg_of_readIov hiov
      rw [ih]
      unfold Apart at h ⊢
      omega

/-- A scatter into buffers that leave the table alone goes as far as the input and the buffers. -/
theorem exists_scatter {input : Bytes} {s : Scatter} {iovs : List Iov}
    (htable : readIovs s.mem count iovPtr = some iovs)
    (hiovs : ∀ iov ∈ iovs, iov.InRange s.mem ∧
      Apart iov.dataPtr iov.dataLength iovPtr.toNat (8 * count))
    (hs : s.total ≤ input.length) :
    ∃ t, scatter input count iovPtr s = some t ∧
      t.total = min input.length (s.total + (iovs.map Iov.dataLength).sum) := by
  induction count generalizing iovPtr s iovs with
  | zero =>
    obtain rfl : [] = iovs := Option.some.inj htable
    exact ⟨s, rfl, (min_eq_right hs).symm⟩
  | succ count ih =>
    rw [readIovs] at htable
    cases hiov : readIov s.mem iovPtr with
    | none =>
      rw [hiov] at htable
      cases htable
    | some iov =>
      rw [hiov] at htable
      obtain ⟨rest, hrest, rfl⟩ := Option.map_eq_some_iff.1 htable
      have hpos := nonneg_of_readIov hiov
      have hnext : ∀ start len, Apart start len iovPtr.toNat (8 * (count + 1)) →
          Apart start len (iovPtr + 8).toNat (8 * count) := by
        intro start len h
        unfold Apart at h ⊢
        omega
      obtain ⟨hrange, hapart⟩ := hiovs iov List.mem_cons_self
      have hrestApart : ∀ iov ∈ rest, iov.InRange s.mem ∧
          Apart iov.dataPtr iov.dataLength (iovPtr + 8).toNat (8 * count) := fun iov hmem =>
        (hiovs iov (List.mem_cons_of_mem _ hmem)).imp_right (hnext _ _)
      have hsum : ((iov :: rest).map Iov.dataLength).sum =
          iov.dataLength + (rest.map Iov.dataLength).sum := List.sum_cons
      rw [scatter, hiov, sum_length_stores, show s.delivered.length = s.total from rfl]
      split
      next hfull => exact ⟨s, rfl, by omega⟩
      next hroom =>
        dsimp only
        generalize hbytes : (input.drop s.total).take iov.dataLength = bytes
        have hlen : bytes.length = min iov.dataLength (input.length - s.total) := by
          rw [← hbytes, List.length_take, List.length_drop]
        split
        next hempty =>
          rw [hempty, List.length_nil] at hlen
          obtain ⟨t, ht, htotal⟩ := ih hrest hrestApart hs
          exact ⟨t, ht, by omega⟩
        next hne =>
          have hstored :
              s.mem.setBytes iov.dataPtr bytes = some (s.mem.store iov.dataPtr bytes) := by
            refine if_pos ?_
            have := List.length_pos_iff.2 hne
            rcases hrange with hzero | hrange <;> omega
          rw [hstored]
          have htotal : Scatter.total ⟨s.mem.store iov.dataPtr bytes,
              s.stores ++ [(iov.dataPtr, bytes)]⟩ = s.total + bytes.length := by
            simp [Scatter.total, Scatter.delivered]
          have hkept : Apart iov.dataPtr bytes.length (iovPtr + 8).toNat (8 * count) := by
            refine (hnext _ _ hapart).mono ?_ ?_ <;> omega
          have hroom' : s.total + bytes.length ≤ input.length := by omega
          obtain ⟨t, ht, hdelivered⟩ := ih (s := ⟨s.mem.store iov.dataPtr bytes, _⟩)
            ((readIovs_store hkept).trans hrest) hrestApart (htotal ▸ hroom')
          exact ⟨t, ht, by rw [hdelivered, htotal]; omega⟩

namespace IoBuffer

variable (h : IoBuffer mem iovsPtr iovsLen ptr size)
include h

/-- A read delivers what is there, up to the size of the buffer. -/
theorem readIntoIovs (input : Bytes) (inputOffset : ℕ) :
    ∃ t, WasmHost.readIntoIovs mem input inputOffset iovsPtr iovsLen = some t ∧
      t.total = min (input.length - inputOffset) size ∧ t.mem.byteLength = mem.byteLength := by
  obtain ⟨iovs, htable, rfl, hiovs⟩ := h.table
  obtain ⟨t, ht, htotal⟩ :=
    @exists_scatter _ _ (input.drop inputOffset) ⟨mem, []⟩ _ htable hiovs (Nat.zero_le _)
  refine ⟨t, ht, ?_, World.byteLength_scatter ht⟩
  rw [htotal, List.length_drop]
  change min _ (0 + _) = _
  rw [Nat.zero_add]

/-- A write takes as many bytes as the buffer has. -/
theorem readIovChunks :
    ∃ chunks, WasmHost.readIovChunks mem iovsPtr iovsLen = some ⟨chunks, size⟩ := by
  obtain ⟨iovs, htable, rfl, -⟩ := h.table
  unfold WasmHost.readIovChunks
  rw [htable]
  exact ⟨_, rfl⟩

/-- The word for the result can be stored, and the buffer stays. -/
theorem writeU32 (value : ℕ) :
    ∃ mem', mem.writeU32 ptr value = some mem' ∧ IoBuffer mem' iovsPtr iovsLen ptr size ∧
      mem'.readU32 ptr = some (value % 2 ^ 32) := by
  obtain ⟨mem', hmem'⟩ := Option.isSome_iff_exists.1 ((mem.writeU32_isSome_iff ptr value).2 h.word)
  have hlength := mem.byteLength_of_writeU32 hmem'
  refine ⟨mem', hmem', ⟨?_, h.small, hlength ▸ h.word, h.apart⟩, mem.readU32_writeU32 hmem'⟩
  obtain ⟨iovs, htable, hsum, hiovs⟩ := h.table
  refine ⟨iovs, ?_, hsum, fun iov hiov => ?_⟩
  · unfold Memory.writeU32 at hmem'
    rw [if_pos h.word] at hmem'
    rw [← Option.some.inj hmem', readIovs_store h.apart, htable]
  · obtain ⟨hrange, hapart⟩ := hiovs iov hiov
    refine ⟨?_, hapart⟩
    unfold Iov.InRange at hrange ⊢
    rw [hlength]
    exact hrange

end IoBuffer

end WasmHost

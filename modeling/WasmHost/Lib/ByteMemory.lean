import Mathlib.Data.List.Range

/-!
# A flat memory

A memory is a function from addresses. `Holds m start bytes` says that the bytes stand at
`start`; a write makes its own bytes stand there (`holds_write`) and leaves what stands
`Apart` from it (`Holds.write`).
-/

namespace WasmHost

/-- A flat memory with cells in `B`. -/
abbrev ByteMemory (B : Type) := ℕ → B

namespace ByteMemory

variable {B : Type} {len' i : ℕ} {m' : ByteMemory B} {bytes' : List B}

/-- The cells from `start` on. -/
def read (m : ByteMemory B) (start len : ℕ) : List B := (List.range' start len).map m

def write (m : ByteMemory B) (start : ℕ) (bytes : List B) : ByteMemory B := fun i =>
  if start ≤ i then (bytes[i - start]?).getD (m i) else m i

/-- The bytes stand at `start`. -/
def Holds (m : ByteMemory B) (start : ℕ) (bytes : List B) : Prop :=
  m.read start bytes.length = bytes

/-- Two regions, each by its start and its length, share no cell. -/
def Apart (start len start' len' : ℕ) : Prop :=
  len = 0 ∨ len' = 0 ∨ start + len ≤ start' ∨ start' + len' ≤ start

/-- Ranges can be compared. -/
instance (start len start' len' : ℕ) : Decidable (Apart start len start' len') :=
  inferInstanceAs (Decidable (_ ∨ _ ∨ _ ∨ _))

variable {start len start' : ℕ} (m : ByteMemory B) {bytes : List B}

theorem Apart.symm (h : Apart start len start' len') : Apart start' len' start len := by
  unfold Apart at *
  omega

/-- What lies in a region is apart from what the region is apart from. -/
theorem Apart.mono {inner size : ℕ} (h : Apart start len start' len') (hstart : start ≤ inner)
    (hend : inner + size ≤ start + len) : Apart inner size start' len' := by
  unfold Apart at *
  omega

@[simp]
theorem length_read (start len : ℕ) : (m.read start len).length = len := by
  simp [read]

theorem read_add (start a b : ℕ) :
    m.read start (a + b) = m.read start a ++ m.read (start + a) b := by
  rw [read, ← List.range'_append_1, List.map_append]
  rfl

theorem read_congr {m : ByteMemory B} (h : ∀ i, start ≤ i → i < start + len → m i = m' i) :
    m.read start len = m'.read start len := by
  refine List.map_congr_left fun i hi => ?_
  obtain ⟨hstart, hend⟩ := List.mem_range'_1.1 hi
  exact h i hstart hend

theorem write_of_lt (bytes : List B) (h : i < start) : m.write start bytes i = m i := by
  rw [write, if_neg (Nat.not_le.2 h)]

theorem write_of_ge (bytes : List B) (h : start + bytes.length ≤ i) :
    m.write start bytes i = m i := by
  rw [write, if_pos (by omega), List.getElem?_eq_none (by omega), Option.getD_none]

theorem read_write (start : ℕ) (bytes : List B) :
    (m.write start bytes).read start bytes.length = bytes := by
  refine List.ext_getElem (by simp) fun i hi hi' => ?_
  rw [length_read] at hi
  simp [read, write, List.getElem?_eq_getElem hi']

/-- A write changes nothing that is apart from it. -/
theorem read_write_of_apart (h : Apart start' bytes.length start len) :
    (m.write start' bytes).read start len = m.read start len := by
  refine read_congr fun i hi hi' => ?_
  rcases h with h | h | h | h
  · rw [List.eq_nil_of_length_eq_zero h, write]
    simp
  · omega
  · exact write_of_ge m bytes (h.trans hi)
  · exact write_of_lt m bytes (by omega)

theorem holds_write (start : ℕ) (bytes : List B) :
    (m.write start bytes).Holds start bytes := read_write m start bytes

theorem Holds.write {m : ByteMemory B} (h : m.Holds start bytes)
    (hapart : Apart start' bytes'.length start bytes.length) :
    (m.write start' bytes').Holds start bytes :=
  (read_write_of_apart m hapart).trans h

/-- Cells that are not changed keep what they hold. -/
theorem Holds.congr {m : ByteMemory B} (h : m.Holds start bytes)
    (heq : ∀ i, start ≤ i → i < start + bytes.length → m' i = m i) : m'.Holds start bytes :=
  (read_congr heq).trans h

theorem holds_append {m : ByteMemory B} :
    m.Holds start (bytes ++ bytes') ↔
      m.Holds start bytes ∧ m.Holds (start + bytes.length) bytes' := by
  unfold Holds
  rw [List.length_append, read_add]
  exact ⟨fun h => List.append_inj h (length_read m start bytes.length),
    fun h => by rw [h.1, h.2]⟩

theorem holds_cons {m : ByteMemory B} {b : B} :
    m.Holds start (b :: bytes) ↔ m start = b ∧ m.Holds (start + 1) bytes := by
  show m.Holds start ([b] ++ bytes) ↔ _
  rw [holds_append]
  exact and_congr_left' ⟨fun h => List.head_eq_of_cons_eq h, fun h => congrArg (fun x => [x]) h⟩

end ByteMemory

end WasmHost

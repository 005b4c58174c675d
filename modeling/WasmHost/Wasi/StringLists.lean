import WasmHost.Wasi.IoBuffers

/-!
# Arguments and environment

`args_sizes_get` and `args_get`, and their likes for the environment: the guest learns how many
strings there are and how many bytes they take, sets two areas aside, and has the pointers written
into the one and the strings into the other.

* `Memory.exists_fetched`: the guest reads the strings that it was started with, and nothing outside
  its areas changes.
-/

namespace WasmHost

open ByteMemory

def encodeCString (value : Text) : Bytes := encodeText value ++ [0]

def stringListBufferSize (values : List Text) : ℕ :=
  values.foldl (fun total value => total + (encodeText value).length + 1) 0

theorem stringListBufferSize_cons (value : Text) (values : List Text) :
    stringListBufferSize (value :: values) =
      (encodeCString value).length + stringListBufferSize values := by
  have hstart : ∀ (values : List Text) (start : ℕ),
      values.foldl (fun total value => total + (encodeText value).length + 1) start =
        start + stringListBufferSize values := by
    intro values
    induction values with
    | nil => exact fun start => rfl
    | cons value values ih =>
      intro start
      rw [stringListBufferSize, List.foldl_cons, List.foldl_cons, ih, ih]
      omega
  rw [stringListBufferSize, List.foldl_cons, hstart, encodeCString, List.length_append]
  simp

namespace Memory

/-- Writes the sizes of a list. -/
def writeSizes (mem : Memory) (values : List Text) (countPtr bufSizePtr : Int) :
    Memory × Except Failure Unit :=
  match mem.writeU32 countPtr values.length with
  | none => (mem, .error .throws)
  | some mem₁ => mem₁.finishU32 bufSizePtr (stringListBufferSize values) (.ok ())

/-- The loop from a string on; what was written before an exception stays. -/
def writeStringPointers (mem : Memory) : List Text → Int → Int → Memory × Except Failure Unit
  | [], _, _ => (mem, .ok ())
  | value :: values, pointersPtr, offset =>
    match mem.writeU32 pointersPtr (toUint32 offset).toNat with
    | none => (mem, .error .throws)
    | some mem₁ =>
      if offset < 0 then (mem₁, .error .throws)
      else
        match mem₁.setBytes offset.toNat (encodeCString value) with
        | none => (mem₁, .error .throws)
        | some mem₂ =>
          mem₂.writeStringPointers values (pointersPtr + 4) (offset + (encodeCString value).length)

/-! ### What the guest reads -/

/-- The bytes from a pointer up to the next NUL. -/
def readCString (mem : Memory) (ptr : ℕ) : Bytes :=
  (mem.slice ptr (mem.byteLength - ptr)).takeWhile (· ≠ 0)

/-- The strings of a table of pointers. -/
def readCStrings (mem : Memory) : Int → ℕ → Option (List Bytes)
  | _, 0 => some []
  | pointersPtr, count + 1 => do
    let ptr ← mem.readU32 pointersPtr
    let rest ← mem.readCStrings (pointersPtr + 4) count
    return mem.readCString ptr :: rest

variable {mem mem' : Memory} {ptr p b : ℕ} {values : List Text} {value : Text}

theorem readCString_of_holds (hholds : Holds mem.byte ptr (encodeCString value))
    (hroom : ptr + (encodeCString value).length ≤ mem.byteLength) (hnul : '\x00' ∉ value) :
    mem.readCString ptr = encodeText value := by
  have hslice : mem.slice ptr (mem.byteLength - ptr) = encodeCString value ++
      ByteMemory.read mem.byte (ptr + (encodeCString value).length)
        (mem.byteLength - ptr - (encodeCString value).length) := by
    rw [slice, min_self, ← Nat.add_sub_of_le (show (encodeCString value).length ≤
      mem.byteLength - ptr by omega)]
    exact (read_add _ _ _ _).trans (by rw [hholds, Nat.add_sub_cancel_left])
  have hzero : ∀ x ∈ encodeText value, decide (x ≠ 0) = true := by
    intro x hx
    rw [decide_eq_true_eq]
    rintro rfl
    exact hnul ((mem_encodeText_iff (by decide)).1 hx)
  rw [readCString, hslice, encodeCString, List.append_assoc, List.takeWhile_append_of_pos hzero]
  simp

theorem byte_writeU32 {value i : ℕ} (h : mem.writeU32 p value = some mem')
    (hi : i < p ∨ p + 4 ≤ i) : mem'.byte i = mem.byte i := by
  unfold writeU32 at h
  split_ifs at h
  rw [← Option.some.inj h]
  exact byte_store_of_apart hi

theorem readU32_congr (hbytes : ∀ i, p ≤ i → i < p + 4 → mem'.byte i = mem.byte i)
    (hlength : mem'.byteLength = mem.byteLength) : mem'.readU32 p = mem.readU32 p := by
  unfold readU32
  simp only [Int.toNat_natCast, hlength]
  rw [hbytes _ (by omega) (by omega), hbytes _ (by omega) (by omega),
    hbytes _ (by omega) (by omega),
    hbytes _ (by omega) (by omega)]

/-- Areas of the sizes that were told take the pointers and the strings. -/
theorem exists_writeStringPointers (hsize : mem.byteLength ≤ 2 ^ 32)
    (hnul : ∀ value ∈ values, '\x00' ∉ value) (hp : p + 4 * values.length ≤ mem.byteLength)
    (hb : b + stringListBufferSize values ≤ mem.byteLength)
    (hapart : Apart p (4 * values.length) b (stringListBufferSize values)) :
    ∃ mem', mem.writeStringPointers values p b = (mem', .ok ()) ∧
      mem'.byteLength = mem.byteLength ∧
      mem'.readCStrings p values.length = some (values.map encodeText) ∧
      ∀ i, (i < p ∨ p + 4 * values.length ≤ i) →
        (i < b ∨ b + stringListBufferSize values ≤ i) → mem'.byte i = mem.byte i := by
  induction values generalizing mem p b with
  | nil => exact ⟨mem, rfl, rfl, rfl, fun _ _ _ => rfl⟩
  | cons value values ih =>
    obtain ⟨hvalue, hvalues⟩ := List.forall_mem_cons.1 hnul
    rw [stringListBufferSize_cons, List.length_cons] at *
    have hpos : 0 < (encodeCString value).length := by simp [encodeCString]
    unfold Apart at hapart
    -- the first round
    obtain ⟨mem₁, hword⟩ := Option.isSome_iff_exists.1
      ((mem.writeU32_isSome_iff p (toUint32 b).toNat).2 ⟨by omega, by omega⟩)
    have hlength₁ := mem.byteLength_of_writeU32 hword
    have hread : mem₁.readU32 p = some b := by
      rw [mem.readU32_writeU32 hword, toUint32]
      congr 1
      omega
    set mem₂ := mem₁.store b (encodeCString value) with hmem₂
    have hset : mem₁.setBytes b (encodeCString value) = some mem₂ := if_pos (by omega)
    have hframe₂ : ∀ i, (i < b ∨ b + (encodeCString value).length ≤ i) →
        mem₂.byte i = mem₁.byte i := fun i hi => byte_store_of_apart hi
    -- the other rounds leave the word and the string
    obtain ⟨mem', hrest, hlength, hstrings, hframe⟩ := @ih mem₂ (p + 4)
      (b + (encodeCString value).length) (by rwa [← hlength₁] at hsize) hvalues
      (by show _ ≤ mem₁.byteLength; omega) (by show _ ≤ mem₁.byteLength; omega)
      (by unfold Apart; omega)
    have hlength' : mem'.byteLength = mem.byteLength := hlength.trans hlength₁
    refine ⟨mem', ?_, hlength', ?_, ?_⟩
    · rw [writeStringPointers, hword]
      dsimp only
      rw [if_neg (by omega), Int.toNat_natCast, hset]
      exact_mod_cast hrest
    · have hpointer : mem'.readU32 p = some b := by
        refine (readU32_congr (fun i hi hi' => ?_) (hlength'.trans hlength₁.symm)).trans hread
        rw [hframe i (by omega) (by omega), hframe₂ i (by omega)]
      have hstring : mem'.readCString b = encodeText value := by
        refine readCString_of_holds ?_ (by omega) hvalue
        refine (ByteMemory.holds_write mem₁.byte b (encodeCString value)).congr fun i hi hi' => ?_
        exact hframe i (by omega) (by omega)
      refine Option.bind_eq_some_iff.2 ⟨b, hpointer, Option.bind_eq_some_iff.2
        ⟨values.map encodeText, by exact_mod_cast hstrings, ?_⟩⟩
      rw [hstring]
      rfl
    · intro i hi hi'
      rw [hframe i (by omega) (by omega), hframe₂ i (by omega), byte_writeU32 hword (by omega)]

/-- A guest that sets aside what it is told reads the strings that it was started with, and its
memory outside these areas stays as it was. Its pointers arrive as signed numbers, which in a memory
of at most 2 GiB are not negative. -/
theorem exists_fetched (hsize : mem.byteLength ≤ 2 ^ 31) (hnul : ∀ value ∈ values, '\x00' ∉ value)
    (hcount : values.length < 2 ^ 32) (hlength : stringListBufferSize values < 2 ^ 32)
    {countPtr bufSizePtr : ℕ} (hcountPtr : countPtr + 4 ≤ mem.byteLength)
    (hbufSizePtr : bufSizePtr + 4 ≤ mem.byteLength) (hwords : Apart countPtr 4 bufSizePtr 4) :
    ∃ mem₁, mem.writeSizes values (toI32 countPtr) (toI32 bufSizePtr) = (mem₁, .ok ()) ∧
      mem₁.readU32 countPtr = some values.length ∧
      mem₁.readU32 bufSizePtr = some (stringListBufferSize values) ∧
      ∀ {p b : ℕ}, p + 4 * values.length ≤ mem.byteLength →
        b + stringListBufferSize values ≤ mem.byteLength →
        Apart p (4 * values.length) b (stringListBufferSize values) →
        ∃ mem₂, mem₁.writeStringPointers values (toI32 p) (toI32 b) = (mem₂, .ok ()) ∧
          mem₂.readCStrings p values.length = some (values.map encodeText) ∧
          ∀ i, (i < p ∨ p + 4 * values.length ≤ i) →
            (i < b ∨ b + stringListBufferSize values ≤ i) → mem₂.byte i = mem₁.byte i := by
  rw [toI32_of_lt (by omega), toI32_of_lt (by omega)]
  obtain ⟨mem₀, hfirst⟩ := Option.isSome_iff_exists.1
    ((mem.writeU32_isSome_iff countPtr values.length).2 ⟨by omega, by omega⟩)
  have hlength₀ := mem.byteLength_of_writeU32 hfirst
  obtain ⟨mem₁, hsecond⟩ := Option.isSome_iff_exists.1
    ((mem₀.writeU32_isSome_iff bufSizePtr (stringListBufferSize values)).2 ⟨by omega, by omega⟩)
  have hlength₁ := mem₀.byteLength_of_writeU32 hsecond
  refine ⟨mem₁, ?_, ?_, ?_, fun hp hb hapart => ?_⟩
  · rw [writeSizes, hfirst]
    dsimp only
    rw [finishU32, hsecond]
  · have hread := mem.readU32_writeU32 hfirst
    rw [Nat.mod_eq_of_lt hcount] at hread
    refine (readU32_congr (fun i hi hi' => byte_writeU32 hsecond ?_) hlength₁).trans hread
    unfold Apart at hwords
    omega
  · rw [mem₀.readU32_writeU32 hsecond, Nat.mod_eq_of_lt hlength]
  · cases values with
    | nil => exact ⟨mem₁, rfl, rfl, fun _ _ _ => rfl⟩
    | cons value values =>
      -- areas that are not empty begin below 2 GiB
      rw [stringListBufferSize_cons] at hb
      rw [List.length_cons] at hp
      have hstring : 0 < (encodeCString value).length := by
        rw [encodeCString, List.length_append]
        exact Nat.succ_pos _
      rw [toI32_of_lt (by omega), toI32_of_lt (by omega)]
      obtain ⟨mem₂, hwritten, -, hread, hframe⟩ := @exists_writeStringPointers mem₁ _ _ _
        (by omega) hnul (by rw [List.length_cons]; omega)
        (by rw [stringListBufferSize_cons]; omega) hapart
      exact ⟨mem₂, hwritten, hread, hframe⟩

theorem exists_fetched_twoStrings :
    ∃ mem₁ mem₂, writeSizes ⟨64, fun _ => 0⟩ ["a".toList, "bc".toList] 0 4 = (mem₁, .ok ()) ∧
      mem₁.writeStringPointers ["a".toList, "bc".toList] 8 16 = (mem₂, .ok ()) ∧
      mem₂.readCStrings 8 2 = some [encodeText "a".toList, encodeText "bc".toList] := by
  obtain ⟨mem₁, hsizes, -, -, hfetch⟩ := @exists_fetched ⟨64, fun _ => 0⟩
    ["a".toList, "bc".toList] (by decide) (by decide) (by decide) (by decide) 0 4 (by decide)
    (by decide) (by decide)
  obtain ⟨mem₂, hwritten, hread, -⟩ := @hfetch 8 16 (by decide) (by decide) (by decide)
  exact ⟨mem₁, mem₂, hsizes, hwritten, hread⟩

end Memory

end WasmHost

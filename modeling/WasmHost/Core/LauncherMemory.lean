import WasmHost.Core.Launcher

/-!
# The launcher's memory

The parts of the memory are at fixed places and the host writes arguments and environment without
a limit. `Layout` says that the parts do not overlap; under it the launcher finds everything
where it looks for it (`fetched_of_layout`) and the request that it writes is `encodeRequest`
(`writeRequest_of_fetched`).
-/

namespace WasmHost

open List

namespace Launcher

/-! ### Words and strings in memory -/

variable {m : Mem} {ptr buffer i addr countPtr : ℕ} {items args envs : List Bytes}
    {path text : Bytes}

theorem store32_eq (value : ℕ) (h : addr + 4 ≤ memorySize) :
    store32 m addr value = some (m.write addr (littleEndian 4 value)) := if_pos h

theorem load32_of_holds {value : ℕ} (hholds : m.Holds addr (littleEndian 4 value))
    (hvalue : value < 2 ^ 32) (haddr : addr + 4 ≤ memorySize) : load32 m addr = some value := by
  have hread : m.read addr 4 = littleEndian 4 value := by
    simpa [ByteMemory.Holds] using hholds
  rw [load32, if_pos haddr, hread, ofLittleEndian_littleEndian, Nat.mod_eq_of_lt (by omega)]

theorem findNul_of_holds (hnul : 0 ∉ text) (hholds : m.Holds ptr (text ++ [0]))
    (hroom : ptr + text.length < memorySize) : findNul m ptr = some (ptr + text.length) := by
  induction text generalizing ptr with
  | nil =>
    have hzero : m ptr = 0 := (ByteMemory.holds_cons.1 hholds).1
    rw [findNul, if_pos (by simpa using hroom), if_pos hzero]
    rfl
  | cons b text ih =>
    obtain ⟨hb, htext⟩ := ByteMemory.holds_cons.1 hholds
    have hne : m ptr ≠ 0 := by
      rw [hb]
      rintro rfl
      exact hnul mem_cons_self
    rw [length_cons] at hroom ⊢
    rw [findNul, if_pos (by omega), if_neg hne, ih (fun h => hnul (mem_cons_of_mem b h)) htext
      (by omega)]
    congr 1
    omega

theorem strlen_of_holds (hnul : 0 ∉ text) (hholds : m.Holds ptr (text ++ [0]))
    (hroom : ptr + text.length < memorySize) : strlen m ptr = some text.length := by
  rw [strlen, findNul_of_holds hnul hholds hroom]
  simp

/-- The pointers to strings that stand one behind the other. -/
def pointers : ℕ → List Bytes → Bytes
  | _, [] => []
  | buffer, item :: rest => littleEndian 4 buffer ++ pointers (buffer + item.length + 1) rest

/-- Strings one behind the other, each with a NUL behind it. -/
def texts (items : List Bytes) : Bytes := items.flatMap fun item => item ++ [0]

@[simp]
theorem length_pointers (buffer : ℕ) (items : List Bytes) :
    (pointers buffer items).length = 4 * items.length := by
  induction items generalizing buffer with
  | nil => rfl
  | cons item rest ih =>
    rw [pointers, length_append, length_littleEndian, ih, length_cons]
    omega

@[simp]
theorem length_texts (items : List Bytes) : (texts items).length = textsSize items := by
  simp [texts, textsSize, length_flatMap]

@[simp]
theorem textsSize_cons (item : Bytes) (rest : List Bytes) :
    textsSize (item :: rest) = item.length + 1 + textsSize rest := by
  simp [textsSize]

/-- The host writes pointers and strings, and nothing else. -/
theorem writeBuffers_of_outside (hptr : i < ptr ∨ ptr + 4 * items.length ≤ i)
    (hbuffer : i < buffer ∨ buffer + textsSize items ≤ i) :
    writeBuffers m items ptr buffer i = m i := by
  induction items generalizing m ptr buffer with
  | nil => rfl
  | cons item rest ih =>
    rw [length_cons] at hptr
    rw [textsSize_cons] at hbuffer
    have hword : m.write ptr (littleEndian 4 buffer) i = m i := by
      rcases hptr with h | h
      · exact m.write_of_lt _ h
      · exact m.write_of_ge _ (by rw [length_littleEndian]; omega)
    have htext : ∀ m' : Mem, m'.write buffer item i = m' i := fun m' => by
      rcases hbuffer with h | h
      · exact m'.write_of_lt _ h
      · exact m'.write_of_ge _ (by omega)
    have hnul : ∀ m' : Mem, m'.write (buffer + item.length) [0] i = m' i := fun m' => by
      rcases hbuffer with h | h
      · exact m'.write_of_lt _ (by omega)
      · exact m'.write_of_ge _ (by simp; omega)
    rw [writeBuffers]
    split
    · split
      · rw [ih (by omega) (by omega), hnul, htext, hword]
      · exact (htext _).trans hword
    · exact hword

/-- Pointers and strings that share no cell stand where the host was told to put them. -/
theorem holds_writeBuffers
    (hapart : ByteMemory.Apart ptr (4 * items.length) buffer (textsSize items))
    (hroom : buffer + textsSize items ≤ memorySize) :
    (writeBuffers m items ptr buffer).Holds ptr (pointers buffer items) ∧
      (writeBuffers m items ptr buffer).Holds buffer (texts items) := by
  induction items generalizing m ptr buffer with
  | nil => exact ⟨rfl, rfl⟩
  | cons item rest ih =>
    rw [length_cons, textsSize_cons] at hapart
    rw [textsSize_cons] at hroom
    rw [writeBuffers, if_pos (by omega), if_pos (by omega)]
    set m' := ((m.write ptr (littleEndian 4 buffer)).write buffer item).write
      (buffer + item.length) [0] with hm'
    have hword : m'.Holds ptr (littleEndian 4 buffer) := by
      refine ((m.holds_write ptr _).write ?_).write ?_ <;> rw [length_littleEndian] <;>
        unfold ByteMemory.Apart at * <;> simp <;> omega
    have htext : m'.Holds buffer (item ++ [0]) := by
      refine ByteMemory.holds_append.2 ⟨?_, ByteMemory.holds_write _ _ _⟩
      exact (ByteMemory.holds_write _ _ _).write (by unfold ByteMemory.Apart; omega)
    -- the rest of the loop keeps what the first round wrote
    have hkeep : ∀ i, (ptr ≤ i ∧ i < ptr + 4) ∨ (buffer ≤ i ∧ i < buffer + (item.length + 1)) →
        writeBuffers m' rest (ptr + 4) (buffer + item.length + 1) i = m' i := by
      intro i hi
      unfold ByteMemory.Apart at hapart
      exact writeBuffers_of_outside (by omega) (by omega)
    obtain ⟨hpointers, htexts⟩ := @ih m' (ptr + 4) (buffer + item.length + 1)
      (by unfold ByteMemory.Apart at *; omega) (by omega)
    refine ⟨?_, ?_⟩
    · rw [pointers]
      refine ByteMemory.holds_append.2 ⟨hword.congr fun i h h' => hkeep i (.inl ⟨h, ?_⟩), ?_⟩
      · simpa using h'
      · simpa using hpointers
    · rw [texts, flatMap_cons]
      refine ByteMemory.holds_append.2 ⟨htext.congr fun i h h' => hkeep i (.inr ⟨h, ?_⟩), ?_⟩
      · simpa [Nat.add_assoc] using h'
      · simpa [texts, Nat.add_assoc] using htexts

/-! ### Writing the request -/

/-- What the launcher has written from `requestBuf` up to its cursor. Below that the memory is as
it was when it began. -/
structure Written (m₀ m : Mem) (cursor : ℕ) (out : Bytes) : Prop where
  holds : m.Holds requestBuf out
  cursor_eq : cursor = requestBuf + out.length
  below : ∀ i < requestBuf, m i = m₀ i

namespace Written

variable {m₀ m : Mem} {cursor addr source : ℕ} {out bytes : Bytes}

theorem nil (m : Mem) : Written m m requestBuf [] := ⟨rfl, rfl, fun _ _ => rfl⟩

section

variable (h : Written m₀ m cursor out)
include h

theorem of_eq {out' : Bytes} (heq : out = out') :
    Written m₀ m cursor out' := heq ▸ h

/-- What the memory held below `requestBuf` it still holds. -/
theorem holds_below (hholds : m₀.Holds addr bytes)
    (haddr : addr + bytes.length ≤ requestBuf) : m.Holds addr bytes :=
  hholds.congr fun i _ hi => h.below i (by omega)

theorem load32 (haddr : addr + 4 ≤ requestBuf) :
    Launcher.load32 m addr = Launcher.load32 m₀ addr := by
  have hread : m.read addr 4 = m₀.read addr 4 :=
    ByteMemory.read_congr fun i _ hi => h.below i (by omega)
  rw [Launcher.load32, Launcher.load32, hread]

theorem write (bytes : Bytes) :
    Written m₀ (m.write cursor bytes) (cursor + bytes.length) (out ++ bytes) where
  holds := by
    have hcursor := h.cursor_eq
    refine ByteMemory.holds_append.2 ⟨h.holds.write ?_, ?_⟩
    · exact .inr (.inr (.inr hcursor.ge))
    · rw [← hcursor]
      exact m.holds_write cursor bytes
  cursor_eq := by
    rw [h.cursor_eq, length_append, Nat.add_assoc]
  below i hi := by
    have hcursor := h.cursor_eq
    rw [m.write_of_lt bytes (by omega), h.below i hi]

theorem store32 (value : ℕ) (hroom : cursor + 4 ≤ memorySize) :
    ∃ m', Launcher.store32 m cursor value = some m' ∧
      Written m₀ m' (cursor + 4) (out ++ littleEndian 4 value) := by
  refine ⟨_, store32_eq value hroom, ?_⟩
  simpa using h.write (littleEndian 4 value)

theorem memoryCopy (hholds : m₀.Holds source bytes)
    (hsource : source + bytes.length ≤ requestBuf) (hroom : cursor + bytes.length ≤ memorySize) :
    ∃ m', Launcher.memoryCopy m cursor source bytes.length = some m' ∧
      Written m₀ m' (cursor + bytes.length) (out ++ bytes) := by
  have hsize : requestBuf ≤ memorySize := by decide
  refine ⟨_, if_pos ⟨hroom, by omega⟩, ?_⟩
  rw [h.holds_below hholds hsource]
  exact h.write bytes

theorem writeRecord (hnul : 0 ∉ text)
    (hholds : m₀.Holds source (text ++ [0])) (hsource : source + text.length + 1 ≤ requestBuf)
    (hroom : cursor + (encodeRecord text).length ≤ memorySize) :
    ∃ m', Launcher.writeRecord m cursor source = some (m', cursor + (encodeRecord text).length) ∧
      Written m₀ m' (cursor + (encodeRecord text).length) (out ++ encodeRecord text) := by
  have hsize : requestBuf ≤ memorySize := by decide
  have hlength : (encodeRecord text).length = 4 + text.length := by simp [encodeRecord]
  have hstrlen : strlen m source = some text.length :=
    strlen_of_holds hnul (h.holds_below hholds (by simp; omega)) (by omega)
  obtain ⟨m₁, hstore, h₁⟩ := h.store32 text.length (by omega)
  obtain ⟨m₂, hcopy, h₂⟩ := h₁.memoryCopy (ByteMemory.holds_append.1 hholds).1 (by omega)
    (by omega)
  rw [hlength, ← Nat.add_assoc]
  refine ⟨m₂, ?_, by simpa [encodeRecord] using h₂⟩
  simp [Launcher.writeRecord, hstrlen, hstore, hcopy]

end

/-- The loop from an item on: it ends behind the records of the items that are left. -/
theorem writeRecords {countPtr : ℕ} (ptrs : ℕ) (index : ℕ) (h : Written m₀ m cursor out)
    (hnul : ∀ item ∈ items, 0 ∉ item)
    (hcount : Launcher.load32 m₀ countPtr = some (index + items.length))
    (hcountPtr : countPtr + 4 ≤ requestBuf)
    (hpointers : m₀.Holds (ptrs + 4 * index) (pointers buffer items))
    (hptrs : items ≠ [] → ptrs + 4 * (index + items.length) ≤ requestBuf)
    (htexts : m₀.Holds buffer (texts items))
    (hbuffer : items ≠ [] → buffer + textsSize items ≤ requestBuf)
    (hroom : cursor + (items.flatMap encodeRecord).length ≤ memorySize) :
    ∃ m', Launcher.writeRecords countPtr ptrs m cursor index =
        some (m', cursor + (items.flatMap encodeRecord).length) ∧
      Written m₀ m' (cursor + (items.flatMap encodeRecord).length)
        (out ++ items.flatMap encodeRecord) := by
  have hsize : requestBuf ≤ memorySize := by decide
  induction items generalizing m cursor out index buffer with
  | nil =>
    refine ⟨m, ?_, by simpa using h⟩
    rw [Launcher.writeRecords, h.load32 hcountPtr, hcount]
    simp
  | cons item rest ih =>
    obtain ⟨hitem, hrest⟩ := forall_mem_cons.1 hnul
    have hptrs' := hptrs (cons_ne_nil item rest)
    have hbuffer' := hbuffer (cons_ne_nil item rest)
    rw [length_cons] at hcount hptrs'
    rw [textsSize_cons] at hbuffer'
    rw [pointers, ByteMemory.holds_append, length_littleEndian] at hpointers
    rw [texts, flatMap_cons, ByteMemory.holds_append] at htexts
    rw [flatMap_cons, length_append] at hroom ⊢
    have hpointer : Launcher.load32 m (ptrs + 4 * index) = some buffer := by
      refine load32_of_holds (h.holds_below hpointers.1 ?_) ?_ (by omega)
      · rw [length_littleEndian]
        omega
      · have : requestBuf < 2 ^ 32 := by decide
        omega
    obtain ⟨m₁, hrecord, h₁⟩ := h.writeRecord hitem htexts.1 (by omega) (by omega)
    obtain ⟨m₂, hrecords, h₂⟩ := @ih (buffer + item.length + 1) m₁ _ _
      (index + 1) h₁ hrest (by rw [hcount]; congr 1; omega)
      (by simpa [Nat.mul_add, Nat.add_assoc] using hpointers.2) (fun _ => by omega)
      (by simpa [texts, Nat.add_assoc] using htexts.2) (fun _ => by omega) (by omega)
    refine ⟨m₂, ?_, ?_⟩
    · rw [Launcher.writeRecords, h.load32 hcountPtr, hcount]
      simp only
      rw [if_neg (by omega), hpointer]
      simp only
      split
      next hnone => simp [hrecord] at hnone
      next m' cursor' hsome =>
        obtain ⟨rfl, rfl⟩ := Prod.mk.inj (Option.some.inj (hrecord.symm.trans hsome))
        rw [hrecords, Nat.add_assoc]
    · rw [← Nat.add_assoc, ← append_assoc]
      exact h₂

end Written

/-! ### The layout of the memory -/

/-- The parts of the memory that depend on the input, each by its start and its length. -/
def regions (path : Bytes) (args envs : List Bytes) : List (ℕ × ℕ) :=
  [(execPath, path.length), (argvPtrs, 4 * args.length), (argvBuf, textsSize args),
    (envPtrs, 4 * envs.length), (envBuf, textsSize envs),
    (requestBuf, (encodeRequest path args envs []).length)]

/-- No two parts overlap, and the request ends before the response buffer. -/
structure Layout (path : Bytes) (args envs : List Bytes) : Prop where
  apart : (regions path args envs).Pairwise fun r s => ByteMemory.Apart r.1 r.2 s.1 s.2
  request_le : requestBuf + (encodeRequest path args envs []).length ≤ responseBuf

theorem length_encodeRequest (path : Bytes) (args envs : List Bytes) :
    (encodeRequest path args envs []).length =
      20 + path.length + (args.flatMap encodeRecord).length +
        (envs.flatMap encodeRecord).length := by
  simp only [encodeRequest, encodeRecord, virtualProcessMagic, length_append,
    length_littleEndian, length_cons, length_nil]
  omega

/-- A part that starts below the request ends there. -/
theorem end_le_requestBuf {start len request : ℕ} (hrequest : request ≠ 0)
    (hstart : start ≤ requestBuf) (hapart : ByteMemory.Apart start len requestBuf request) :
    start + len ≤ requestBuf := by
  unfold ByteMemory.Apart at hapart
  omega

/-- The host's calls leave what is outside the tables and the strings. -/
theorem writeBufferArray_of_outside {ptrs : ℕ} (hptrs : i < ptrs ∨ ptrs + 4 * items.length ≤ i)
    (hbuffer : i < buffer ∨ buffer + textsSize items ≤ i) :
    writeBufferArray m items ptrs buffer i = m i := by
  unfold writeBufferArray
  split
  · exact writeBuffers_of_outside hptrs hbuffer
  · rfl

theorem sizesGet_of_outside {sizePtr : ℕ} (hcount : i < countPtr ∨ countPtr + 4 ≤ i)
    (hsize : i < sizePtr ∨ sizePtr + 4 ≤ i) : sizesGet m items countPtr sizePtr i = m i := by
  have hword : ∀ (m' : Mem) (addr value : ℕ), i < addr ∨ addr + 4 ≤ i →
      m'.write addr (littleEndian 4 value) i = m' i := by
    intro m' addr value h
    rcases h with h | h
    · exact m'.write_of_lt _ h
    · exact m'.write_of_ge _ (by rwa [length_littleEndian])
  unfold sizesGet
  split
  · rw [hword _ _ _ hsize, hword _ _ _ hcount]
  · rfl

theorem holds_sizesGet (hcount : items.length < 2 ^ 32) (hsize : textsSize items < 2 ^ 32) :
    (sizesGet m items countPtr (countPtr + 4)).Holds countPtr (littleEndian 4 items.length) := by
  rw [sizesGet, if_pos ⟨hcount, hsize⟩]
  refine (m.holds_write countPtr _).write ?_
  simp [ByteMemory.Apart]

section Frames

variable {m : Mem} {start : ℕ} {bytes : Bytes} {items : List Bytes}

theorem holds_sizesGet_of_apart (h : m.Holds start bytes) {sizePtr : ℕ}
    (hcount : ByteMemory.Apart countPtr 4 start bytes.length)
    (hsize : ByteMemory.Apart sizePtr 4 start bytes.length) :
    (sizesGet m items countPtr sizePtr).Holds start bytes := by
  unfold ByteMemory.Apart at *
  exact h.congr fun i hi hi' => sizesGet_of_outside (by omega) (by omega)

theorem holds_writeBufferArray_of_apart (h : m.Holds start bytes) {ptrs : ℕ}
    (hptrs : ByteMemory.Apart ptrs (4 * items.length) start bytes.length)
    (hbuffer : ByteMemory.Apart buffer (textsSize items) start bytes.length) :
    (writeBufferArray m items ptrs buffer).Holds start bytes := by
  unfold ByteMemory.Apart at *
  exact h.congr fun i hi hi' => writeBufferArray_of_outside (by omega) (by omega)

end Frames

/-- What the launcher finds in its memory after it has fetched arguments and environment. -/
structure Fetched (m : Mem) (path : Bytes) (args envs : List Bytes) : Prop where
  path : m.Holds execPath path
  argc : m.Holds argcPtr (littleEndian 4 args.length)
  envc : m.Holds envcPtr (littleEndian 4 envs.length)
  argvPtrs : m.Holds argvPtrs (pointers argvBuf args)
  argvBuf : m.Holds argvBuf (texts args)
  envPtrs : m.Holds envPtrs (pointers envBuf envs)
  envBuf : m.Holds envBuf (texts envs)

/-- The parts that do not overlap, as inequations. -/
theorem Layout.parts (h : Layout path args envs) :
    (128 + path.length ≤ 2097152 ∧ 1024 + 4 * args.length ≤ 2097152 ∧
      65536 + textsSize args ≤ 2097152 ∧ 262144 + 4 * envs.length ≤ 2097152 ∧
      524288 + textsSize envs ≤ 2097152) ∧
    ByteMemory.Apart 128 path.length 1024 (4 * args.length) ∧
    ByteMemory.Apart 128 path.length 65536 (textsSize args) ∧
    ByteMemory.Apart 128 path.length 262144 (4 * envs.length) ∧
    ByteMemory.Apart 128 path.length 524288 (textsSize envs) ∧
    ByteMemory.Apart 1024 (4 * args.length) 65536 (textsSize args) ∧
    ByteMemory.Apart 1024 (4 * args.length) 262144 (4 * envs.length) ∧
    ByteMemory.Apart 1024 (4 * args.length) 524288 (textsSize envs) ∧
    ByteMemory.Apart 65536 (textsSize args) 262144 (4 * envs.length) ∧
    ByteMemory.Apart 65536 (textsSize args) 524288 (textsSize envs) ∧
    ByteMemory.Apart 262144 (4 * envs.length) 524288 (textsSize envs) := by
  have hrequest : (encodeRequest path args envs []).length ≠ 0 := by
    have := length_encodeRequest path args envs
    omega
  have hapart := h.apart
  simp only [regions, pairwise_cons, mem_cons, not_mem_nil, or_false,
    forall_eq_or_imp, forall_eq, false_imp_iff, implies_true, List.Pairwise.nil, and_true] at hapart
  obtain ⟨⟨h₁, h₂, h₃, h₄, hpath⟩, ⟨h₅, h₆, h₇, hargv⟩, ⟨h₈, h₉, htexts⟩, ⟨h₁₀, henv⟩, henvTexts⟩ :=
    hapart
  exact ⟨⟨end_le_requestBuf hrequest (by decide) hpath,
    end_le_requestBuf hrequest (by decide) hargv, end_le_requestBuf hrequest (by decide) htexts,
    end_le_requestBuf hrequest (by decide) henv,
    end_le_requestBuf hrequest (by decide) henvTexts⟩, h₁, h₂, h₃, h₄, h₅, h₆, h₇, h₈, h₉, h₁₀⟩

/-- In a memory whose parts do not overlap everything is where the launcher looks for it. -/
theorem fetched_of_layout (h : Layout path args envs) :
    ∃ m, instantiate path = some m ∧ Fetched (fetch m args envs) path args envs := by
  obtain ⟨⟨hpath, hargv, htexts, henv, henvTexts⟩, hpathArgv, hpathTexts, hpathEnv, hpathEnvTexts,
    hargvTexts, hargvEnv, hargvEnvTexts, htextsEnv, htextsEnvTexts, henvEnvTexts⟩ := h.parts
  let m₀ := ByteMemory.write (fun _ => 0) deviceName
    (encodeText "dev/wasm-host-virtual-exec".toList)
  have hinstantiate : instantiate path = some (m₀.write execPath path) :=
    if_pos (by simp only [execPath, memorySize]; omega)
  refine ⟨_, hinstantiate, ?_⟩
  -- the memory after each of the four calls
  set m := m₀.write execPath path
  let m₁ := sizesGet m args argcPtr argvSizePtr
  let m₂ := writeBufferArray m₁ args argvPtrs argvBuf
  let m₃ := sizesGet m₂ envs envcPtr envSizePtr
  have hargvWritten :
      m₂.Holds argvPtrs (pointers argvBuf args) ∧ m₂.Holds argvBuf (texts args) := by
    show (writeBufferArray m₁ args argvPtrs argvBuf).Holds _ _ ∧
      (writeBufferArray m₁ args argvPtrs argvBuf).Holds _ _
    rw [writeBufferArray, if_pos (by simp only [argvPtrs, memorySize]; omega)]
    exact holds_writeBuffers hargvTexts (by simp only [argvBuf, memorySize]; omega)
  have henvWritten : (fetch m args envs).Holds envPtrs (pointers envBuf envs) ∧
      (fetch m args envs).Holds envBuf (texts envs) := by
    show (writeBufferArray m₃ envs envPtrs envBuf).Holds _ _ ∧
      (writeBufferArray m₃ envs envPtrs envBuf).Holds _ _
    rw [writeBufferArray, if_pos (by simp only [envPtrs, memorySize]; omega)]
    exact holds_writeBuffers henvEnvTexts (by simp only [envBuf, memorySize]; omega)
  -- what the arguments left in place is left by the environment too
  have hlast : ∀ {start : ℕ} {bytes : Bytes}, m₂.Holds start bytes →
      ByteMemory.Apart 20 8 start bytes.length →
      ByteMemory.Apart 262144 (4 * envs.length) start bytes.length →
      ByteMemory.Apart 524288 (textsSize envs) start bytes.length →
      (fetch m args envs).Holds start bytes := by
    intro start bytes hholds hwords hptrs hbuffer
    refine holds_writeBufferArray_of_apart (holds_sizesGet_of_apart hholds ?_ ?_) hptrs hbuffer
    · exact hwords.mono (by decide) (by decide)
    · exact hwords.mono (by decide) (by decide)
  have hfirst : ∀ {start : ℕ} {bytes : Bytes}, m.Holds start bytes →
      ByteMemory.Apart 0 8 start bytes.length →
      ByteMemory.Apart 1024 (4 * args.length) start bytes.length →
      ByteMemory.Apart 65536 (textsSize args) start bytes.length → m₂.Holds start bytes := by
    intro start bytes hholds hwords hptrs hbuffer
    refine holds_writeBufferArray_of_apart (holds_sizesGet_of_apart hholds ?_ ?_) hptrs hbuffer
    · exact hwords.mono (by decide) (by decide)
    · exact hwords.mono (by decide) (by decide)
  have hargc : m₂.Holds argcPtr (littleEndian 4 args.length) := by
    refine holds_writeBufferArray_of_apart (holds_sizesGet (by omega) (by omega)) ?_ ?_ <;>
      simp [ByteMemory.Apart, argcPtr, argvPtrs, argvBuf]
  have henvc : (fetch m args envs).Holds envcPtr (littleEndian 4 envs.length) := by
    refine holds_writeBufferArray_of_apart (holds_sizesGet (by omega) (by omega)) ?_ ?_ <;>
      simp [ByteMemory.Apart, envcPtr, envPtrs, envBuf]
  refine ⟨?_, hlast hargc ?_ ?_ ?_, henvc, hlast hargvWritten.1 ?_ ?_ ?_,
    hlast hargvWritten.2 ?_ ?_ ?_, henvWritten.1, henvWritten.2⟩
  · refine hlast (hfirst (m₀.holds_write execPath path) ?_ hpathArgv.symm hpathTexts.symm) ?_
      hpathEnv.symm hpathEnvTexts.symm
    · simp [ByteMemory.Apart, execPath]
    · simp [ByteMemory.Apart, execPath]
  · simp [ByteMemory.Apart, argcPtr]
  · simp [ByteMemory.Apart, argcPtr]
  · simp [ByteMemory.Apart, argcPtr]
  · simp [ByteMemory.Apart, argvPtrs]
  · rw [length_pointers]
    exact hargvEnv.symm
  · rw [length_pointers]
    exact hargvEnvTexts.symm
  · simp [ByteMemory.Apart, argvBuf]
  · rw [length_texts]
    exact htextsEnv.symm
  · rw [length_texts]
    exact htextsEnvTexts.symm

/-- The request that is written is the frame of path, arguments and environment. -/
theorem writeRequest_of_fetched (h : Layout path args envs) (hm : Fetched m path args envs)
    (hargs : ∀ item ∈ args, 0 ∉ item) (henvs : ∀ item ∈ envs, 0 ∉ item) :
    ∃ m' cursor, writeRequest m path.length = some (m', cursor) ∧
      Written m m' cursor (encodeRequest path args envs []) := by
  obtain ⟨⟨hpath, hargv, htexts, henv, henvTexts⟩, -⟩ := h.parts
  have hlength := length_encodeRequest path args envs
  have hrequest := h.request_le
  simp only [requestBuf, responseBuf] at hrequest
  have hsize : memorySize = 16777216 := by decide
  have hargc : load32 m argcPtr = some args.length :=
    load32_of_holds hm.argc (by omega) (by decide)
  have henvc : load32 m envcPtr = some envs.length :=
    load32_of_holds hm.envc (by omega) (by decide)
  obtain ⟨m₁, hmagic, h₁⟩ := (Written.nil m).store32 0x31565855 (by decide)
  obtain ⟨m₂, hpathLen, h₂⟩ := h₁.store32 path.length (by decide)
  obtain ⟨m₃, hcopy, h₃⟩ := h₂.memoryCopy hm.path hpath (by simp only [requestBuf]; omega)
  obtain ⟨m₄, hstoreArgc, h₄⟩ := h₃.store32 args.length (by simp only [requestBuf]; omega)
  obtain ⟨m₅, hstoreEnvc, h₅⟩ := h₄.store32 envs.length (by simp only [requestBuf]; omega)
  obtain ⟨m₆, hstoreStdin, h₆⟩ := h₅.store32 0 (by simp only [requestBuf]; omega)
  obtain ⟨m₇, hargRecords, h₇⟩ := h₆.writeRecords argvPtrs 0 hargs (by simpa using hargc)
    (by decide) hm.argvPtrs (fun _ => by simp only [argvPtrs, requestBuf]; omega) hm.argvBuf
    (fun _ => htexts) (by simp only [requestBuf]; omega)
  obtain ⟨m₈, henvRecords, h₈⟩ := h₇.writeRecords envPtrs 0 henvs (by simpa using henvc)
    (by decide) hm.envPtrs (fun _ => by simp only [envPtrs, requestBuf]; omega) hm.envBuf
    (fun _ => henvTexts) (by simp only [requestBuf]; omega)
  obtain ⟨m₉, hstdin, h₉⟩ := h₈.memoryCopy (show m.Holds stdinBuf [] from rfl)
    (by decide) (by simp only [requestBuf, length_nil]; omega)
  refine ⟨m₉, _, ?_, h₉.of_eq ?_⟩
  · rw [← h₃.load32 (by decide)] at hargc
    rw [← h₄.load32 (by decide)] at henvc
    rw [length_nil] at hstdin
    rw [writeRequest]
    refine Option.bind_eq_some_iff.2 ⟨_, hmagic, Option.bind_eq_some_iff.2 ⟨_, hpathLen, ?_⟩⟩
    refine Option.bind_eq_some_iff.2 ⟨_, hcopy, Option.bind_eq_some_iff.2 ⟨_, hargc, ?_⟩⟩
    refine Option.bind_eq_some_iff.2 ⟨_, hstoreArgc, Option.bind_eq_some_iff.2 ⟨_, henvc, ?_⟩⟩
    refine Option.bind_eq_some_iff.2 ⟨_, hstoreEnvc, Option.bind_eq_some_iff.2 ⟨_, hstoreStdin, ?_⟩⟩
    refine Option.bind_eq_some_iff.2 ⟨_, hargRecords,
      Option.bind_eq_some_iff.2 ⟨_, henvRecords, ?_⟩⟩
    exact Option.bind_eq_some_iff.2 ⟨_, hstdin, rfl⟩
  · have hmagicBytes : littleEndian 4 0x31565855 = virtualProcessMagic := by decide
    simp [encodeRequest, encodeRecord, hmagicBytes]

end Launcher

end WasmHost

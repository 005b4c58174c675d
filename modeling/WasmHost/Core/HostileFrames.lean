import WasmHost.Core.BinaryCursor

/-!
# Hostile frames

The readers of the two frames of a virtual process once more, this time as they go through the
bytes: a cursor into a slice, sums of `usize`s that may overflow, ranges that may lie outside, and
the capacities that are asked for before the items they are for have been read.

`FrameReader.Agrees` says that a reader on positions does what the one of `BinaryCursor` does on the
bytes not yet read; a reader that agrees with one never panics. The capacities are another matter:
`Slice.safe_iff_countsFit` says for which frames they are covered by the length of the frame.
-/

namespace WasmHost

/-- How a function of the host ends early: with an error, or in a panic. -/
inductive Halt
  | error (message : String)
  | panicked
  deriving DecidableEq

/-- What a `usize` holds on the target. An `u32` becomes one without loss. -/
structure Target where
  usizeMax : ℕ
  u32Max_le : 2 ^ 32 - 1 ≤ usizeMax

namespace Target

def checkedAdd (target : Target) (a b : ℕ) : Option ℕ :=
  if a + b ≤ target.usizeMax then some (a + b) else none

variable {a b : ℕ}

theorem checkedAdd_of_le {target : Target} (h : a + b ≤ target.usizeMax) :
    target.checkedAdd a b = some (a + b) := if_pos h

theorem checkedAdd_of_lt {target : Target} (h : target.usizeMax < a + b) :
    target.checkedAdd a b = none := if_neg (not_le.2 h)

/-- A `+` of the source. -/
def add (target : Target) (a b : ℕ) : Except Halt ℕ :=
  match target.checkedAdd a b with
  | some sum => .ok sum
  | none => .error .panicked

theorem add_of_le {target : Target} (h : a + b ≤ target.usizeMax) :
    target.add a b = .ok (a + b) := by
  rw [add, checkedAdd_of_le h]

end Target

/-- `&[u8]`. -/
structure Slice (target : Target) where
  bytes : Bytes
  length_le : bytes.length ≤ target.usizeMax

variable {target : Target} {α β : Type}

/-- `&data[start..stop]`. -/
def Slice.range (data : Slice target) (start stop : ℕ) : Except Halt Bytes :=
  if start ≤ stop ∧ stop ≤ data.bytes.length then .ok ((data.bytes.take stop).drop start)
  else .error .panicked

theorem Slice.range_eq (data : Slice target) {start stop : ℕ} (hstart : start ≤ stop)
    (hstop : stop ≤ data.bytes.length) :
    data.range start stop = .ok ((data.bytes.drop start).take (stop - start)) := by
  rw [range, if_pos ⟨hstart, hstop⟩, List.drop_take]

/-! ### The readers -/

/-- The `cursor` of a `BinaryCursor`, and the capacities asked for so far. -/
structure CursorState where
  cursor : ℕ
  capacities : List ℕ

/-- What is asked for is known also where the reader fails. -/
abbrev FrameReader := ExceptT Halt (StateM CursorState)

/-- The fields in front of the arguments. -/
structure FrameHeader where
  executablePath : Text
  argc : ℕ
  envc : ℕ
  stdinLen : ℕ

namespace FrameReader

/-- `Vec::with_capacity` and `HashMap::with_capacity`. -/
def withCapacity (capacity : ℕ) : FrameReader Unit := fun state =>
  (.ok (), { state with capacities := state.capacities ++ [capacity] })

variable (data : Slice target)

/-- Reads bytes. -/
def readBytes (len : ℕ) : FrameReader Bytes := fun state =>
  match target.checkedAdd state.cursor len with
  | none => (.error (.error "binary payload is too large"), state)
  | some stop =>
      if data.bytes.length < stop then (.error (.error "binary payload is truncated"), state)
      else (data.range state.cursor stop, { state with cursor := stop })

/-- Reads the magic bytes. -/
def expectMagic (expected : Bytes) : FrameReader Unit := do
  let actual ← readBytes data expected.length
  if actual = expected then return () else throw (.error "invalid binary payload magic")

/-- Reads a number. -/
def readU32 : FrameReader ℕ := do
  let bytes ← readBytes data 4
  return ofLittleEndian bytes

/-- Reads a text. -/
def readString : FrameReader Text := do
  let len ← readU32 data
  let bytes ← readBytes data len
  match decodeText bytes with
  | some text => return text
  | none => throw (.error "binary payload string is not UTF-8")

/-- Reads a number of texts. -/
def readStrings : ℕ → FrameReader (List Text)
  | 0 => return []
  | count + 1 => do
      let item ← readString data
      let items ← readStrings count
      return item :: items

/-- Reads a number of variables. -/
def readEnvironment : ℕ → OrdMap Text Text → FrameReader (OrdMap Text Text)
  | 0, env => return env
  | count + 1, env => do
      let item ← readString data
      readEnvironment count (insertEnvItem env item)

/-- Reads a header. -/
def readHeader : FrameReader FrameHeader := do
  expectMagic data virtualProcessMagic
  let executablePath ← readString data
  let argc ← readU32 data
  let envc ← readU32 data
  let stdinLen ← readU32 data
  return { executablePath, argc, envc, stdinLen }

/-- `parse_guest_virtual_process_payload`. -/
def parseGuestVirtualProcessPayload : FrameReader GuestVirtualProcessPayload := do
  let header ← readHeader data
  withCapacity header.argc
  let argv ← readStrings data header.argc
  withCapacity header.envc
  let env ← readEnvironment data header.envc OrdMap.empty
  let stdin ← readBytes data header.stdinLen
  let cwd := (env.get "PWD".toList).getD "/".toList
  return { executablePath := header.executablePath, argv, cwd, env, stdin }

end FrameReader

namespace Slice

variable (data : Slice target)

/-- `parse_guest_virtual_process_payload` on a slice, and the capacities it asks for. -/
def parsePayload : Except Halt GuestVirtualProcessPayload × List ℕ :=
  let (result, state) := FrameReader.parseGuestVirtualProcessPayload data ⟨0, []⟩
  (result, state.capacities)

/-- `decode_virtual_process_response`. -/
def decodeResponse : Except Halt VirtualProcessResponsePayload := do
  if data.bytes.length < 16 then
    throw (.error "invalid virtual executable response header")
  let magic ← data.range 0 4
  if magic ≠ virtualResponseMagic then
    throw (.error "invalid virtual executable response header")
  let returncode ← data.range 4 8
  let stdoutLen := ofLittleEndian (← data.range 8 12)
  let stderrLen := ofLittleEndian (← data.range 12 16)
  match (target.checkedAdd 16 stdoutLen).bind (target.checkedAdd · stderrLen) with
  | none => throw (.error "virtual executable response is too large")
  | some expectedLen =>
      if data.bytes.length < expectedLen then
        throw (.error "virtual executable response is truncated")
      let stderrStart ← target.add 16 stdoutLen
      let stdout ← data.range 16 stderrStart
      let stderr ← data.range stderrStart expectedLen
      return { returncode := BitVec.ofNat 32 (ofLittleEndian returncode), stdout, stderr }

/-- Neither parser panics, and no capacity asked for is above the length of the slice. -/
def Safe : Prop :=
  data.parsePayload.1 ≠ .error .panicked ∧ data.decodeResponse ≠ .error .panicked ∧
    ∀ capacity ∈ data.parsePayload.2, capacity ≤ data.bytes.length

end Slice

/-! ### Positions and the bytes left -/

/-- An error for the one with this text, or for a sum that is no `usize`. -/
def Halt.Reports (tooLarge message : String) : Halt → Prop
  | .error text => text = message ∨ text = tooLarge
  | .panicked => False

namespace FrameReader

/-- The reader on positions comes to what the one of `BinaryCursor` comes to on the bytes left. -/
def Agrees (data : Slice target) (reader : FrameReader α) (reading : BinaryCursor α) : Prop :=
  ∀ state, state.cursor ≤ data.bytes.length →
    match reader state with
    | (.ok a, next) => next.cursor ≤ data.bytes.length ∧
        reading.run (data.bytes.drop state.cursor) = .ok (a, data.bytes.drop next.cursor)
    | (.error halt, _) => ∃ message,
        reading.run (data.bytes.drop state.cursor) = .error message ∧
          halt.Reports "binary payload is too large" message

/-- The reader asks for no capacity. -/
def Frugal (reader : FrameReader α) : Prop :=
  ∀ state, (reader state).2.capacities = state.capacities

variable {data : Slice target} {reader : FrameReader α} {reading : BinaryCursor α}
    {next : α → FrameReader β} {reading' : α → BinaryCursor β} {state : CursorState}

theorem Agrees.bind (h : Agrees data reader reading)
    (hnext : ∀ a, Agrees data (next a) (reading' a)) :
    Agrees data (reader >>= next) (reading >>= reading') := by
  intro state hstate
  have hfirst := h state hstate
  rw [ExceptT.bind_apply]
  rcases hreader : reader state with ⟨halt | a, middle⟩ <;> rw [hreader] at hfirst
  · obtain ⟨message, hmessage, hreports⟩ := hfirst
    refine ⟨message, ?_, hreports⟩
    rw [StateT.run_bind, hmessage]
    rfl
  · obtain ⟨hmiddle, hread⟩ := hfirst
    rw [BinaryCursor.run_bind_of_ok hread]
    exact hnext a middle hmiddle

theorem Agrees.pure (a : α) : Agrees data (pure a) (pure a) := fun _ hstate => ⟨hstate, rfl⟩

theorem Agrees.throw (message : String) :
    Agrees data (throw (.error message) : FrameReader α) (throw message) :=
  fun _ _ => ⟨message, rfl, .inl rfl⟩

/-- A capacity that is asked for changes nothing that is read. -/
theorem Agrees.withCapacity (capacity : ℕ) (h : Agrees data reader reading) :
    Agrees data (do withCapacity capacity; reader) reading :=
  fun state hstate => h ⟨state.cursor, state.capacities ++ [capacity]⟩ hstate

theorem Frugal.bind (h : Frugal reader) (hnext : ∀ a, Frugal (next a)) :
    Frugal (reader >>= next) := by
  intro state
  have hfirst := h state
  rw [ExceptT.bind_apply]
  rcases hreader : reader state with ⟨halt | a, middle⟩ <;> rw [hreader] at hfirst
  · exact hfirst
  · exact (hnext a middle).trans hfirst

theorem Frugal.pure (a : α) : Frugal (pure a : FrameReader α) := fun _ => rfl

theorem Frugal.throw (halt : Halt) : Frugal (throw halt : FrameReader α) := fun _ => rfl

theorem Agrees.capacities_of_error (h : Agrees data reader reading) (hfrugal : Frugal reader)
    (hstate : state.cursor ≤ data.bytes.length) {message : String}
    (hread : reading.run (data.bytes.drop state.cursor) = .error message)
    (next : α → FrameReader β) :
    ((reader >>= next) state).2.capacities = state.capacities := by
  have hfirst := h state hstate
  have hkept := hfrugal state
  rw [ExceptT.bind_apply]
  rcases hreader : reader state with ⟨halt | a, middle⟩ <;> rw [hreader] at hfirst hkept
  · exact hkept
  · rw [hread] at hfirst
    exact absurd hfirst.2 nofun

theorem Agrees.bind_of_ok (h : Agrees data reader reading) (hfrugal : Frugal reader)
    (hstate : state.cursor ≤ data.bytes.length) {a : α} {rest : Bytes}
    (hread : reading.run (data.bytes.drop state.cursor) = .ok (a, rest)) (next : α → FrameReader β)
    :
    ∃ middle, (reader >>= next) state = next a middle ∧ middle.cursor ≤ data.bytes.length ∧
      data.bytes.drop middle.cursor = rest ∧ middle.capacities = state.capacities := by
  have hfirst := h state hstate
  have hkept := hfrugal state
  rw [ExceptT.bind_apply]
  rcases hreader : reader state with ⟨halt | a', middle⟩ <;> rw [hreader] at hfirst hkept
  · obtain ⟨message, hmessage, -⟩ := hfirst
    rw [hread] at hmessage
    cases hmessage
  · obtain ⟨hcursor, hrun⟩ := hfirst
    rw [hread] at hrun
    obtain ⟨rfl, rfl⟩ := Prod.mk.inj (Except.ok.inj hrun)
    exact ⟨middle, rfl, hcursor, rfl, hkept⟩

variable (data)

/-- The range that is cut out lies inside the slice, since its end is checked first. -/
theorem agrees_readBytes (len : ℕ) :
    Agrees data (readBytes data len) (BinaryCursor.readBytes len) := by
  intro state hstate
  have hleft : (data.bytes.drop state.cursor).length = data.bytes.length - state.cursor :=
    List.length_drop
  unfold readBytes
  have hlength := data.length_le
  rcases lt_or_ge target.usizeMax (state.cursor + len) with hover | hsum
  · -- an end that is no `usize` is also behind the slice
    rw [Target.checkedAdd_of_lt hover]
    exact ⟨"binary payload is truncated", if_pos (by omega), .inr rfl⟩
  rw [Target.checkedAdd_of_le hsum]
  by_cases hstop : data.bytes.length < state.cursor + len
  · simp only [if_pos hstop]
    exact ⟨"binary payload is truncated", if_pos (by omega), .inl rfl⟩
  · have hrange : data.range state.cursor (state.cursor + len) =
        .ok ((data.bytes.drop state.cursor).take len) := by
      rw [data.range_eq (by omega) (by omega), Nat.add_sub_cancel_left]
    simp only [if_neg hstop, hrange]
    refine ⟨by omega, ?_⟩
    show BinaryCursor.readBytes len _ = _
    rw [BinaryCursor.readBytes, if_neg (by omega), List.drop_drop]

theorem agrees_expectMagic (expected : Bytes) :
    Agrees data (expectMagic data expected) (BinaryCursor.expectMagic expected) := by
  apply (agrees_readBytes data expected.length).bind
  intro actual
  split
  · exact .pure ()
  · exact .throw _

theorem agrees_readU32 : Agrees data (readU32 data) BinaryCursor.readU32 :=
  (agrees_readBytes data 4).bind fun _ => .pure _

theorem agrees_readString : Agrees data (readString data) BinaryCursor.readString := by
  apply (agrees_readU32 data).bind
  intro len
  apply (agrees_readBytes data len).bind
  intro bytes
  cases decodeText bytes with
  | some text => exact .pure text
  | none => exact .throw _

variable (count : ℕ)

theorem agrees_readStrings :
    Agrees data (readStrings data count) (BinaryCursor.readStrings count) := by
  induction count with
  | zero => exact .pure []
  | succ count ih => exact (agrees_readString data).bind fun _ => ih.bind fun _ => .pure _

theorem agrees_readEnvironment (env : OrdMap Text Text) :
    Agrees data (readEnvironment data count env) (BinaryCursor.readEnvironment count env) := by
  induction count generalizing env with
  | zero => exact .pure env
  | succ count ih => exact (agrees_readString data).bind fun item => ih (insertEnvItem env item)

theorem frugal_readBytes (len : ℕ) : Frugal (readBytes data len) := by
  intro state
  unfold readBytes
  split
  · rfl
  · split <;> rfl

theorem frugal_expectMagic (expected : Bytes) : Frugal (expectMagic data expected) := by
  apply (frugal_readBytes data expected.length).bind
  intro actual
  split
  · exact .pure ()
  · exact .throw _

theorem frugal_readU32 : Frugal (readU32 data) :=
  (frugal_readBytes data 4).bind fun _ => .pure _

theorem frugal_readString : Frugal (readString data) := by
  apply (frugal_readU32 data).bind
  intro len
  apply (frugal_readBytes data len).bind
  intro bytes
  cases decodeText bytes with
  | some text => exact .pure text
  | none => exact .throw _

theorem frugal_readStrings : Frugal (readStrings data count) := by
  induction count with
  | zero => exact .pure []
  | succ count ih => exact (frugal_readString data).bind fun _ => ih.bind fun _ => .pure _

theorem frugal_readEnvironment (env : OrdMap Text Text) :
    Frugal (readEnvironment data count env) := by
  induction count generalizing env with
  | zero => exact .pure env
  | succ count ih => exact (frugal_readString data).bind fun item => ih (insertEnvItem env item)

theorem frugal_readHeader : Frugal (readHeader data) := by
  apply (frugal_expectMagic data virtualProcessMagic).bind
  intro _
  apply (frugal_readString data).bind
  intro _
  apply (frugal_readU32 data).bind
  intro _
  apply (frugal_readU32 data).bind
  intro _
  apply (frugal_readU32 data).bind
  intro _
  exact .pure _

end FrameReader

/-! ### The header of a frame -/

open BinaryCursor in
/-- Reads a header. -/
def readFrameHeader : BinaryCursor FrameHeader := do
  expectMagic virtualProcessMagic
  let executablePath ← readString
  let argc ← readU32
  let envc ← readU32
  let stdinLen ← readU32
  return { executablePath, argc, envc, stdinLen }

/-- The numbers of a header are `u32`s. -/
def FrameHeader.Fits (header : FrameHeader) : Prop :=
  BinaryCursor.Fits header.executablePath ∧ header.argc < 2 ^ 32 ∧ header.envc < 2 ^ 32 ∧
    header.stdinLen < 2 ^ 32

/-- The counts can be checked. -/
instance (header : FrameHeader) : Decidable header.Fits := inferInstanceAs (Decidable (_ ∧ _))

/-- The bytes of a header. -/
def FrameHeader.encode (header : FrameHeader) : Bytes :=
  virtualProcessMagic ++ encodeRecord (encodeText header.executablePath) ++
    littleEndian 4 header.argc ++ littleEndian 4 header.envc ++ littleEndian 4 header.stdinLen

open BinaryCursor

variable {header : FrameHeader}

theorem readFrameHeader_append (h : header.Fits) (rest : Bytes) :
    readFrameHeader.run (header.encode ++ rest) = .ok (header, rest) := by
  obtain ⟨hpath, hargc, henvc, hstdin⟩ := h
  unfold readFrameHeader FrameHeader.encode
  simp only [List.append_assoc]
  rw [run_bind_of_ok (expectMagic_append _ _), run_bind_of_ok (readString_append hpath _),
    run_bind_of_ok (readU32_append hargc _), run_bind_of_ok (readU32_append henvc _),
    run_bind_of_ok (readU32_append hstdin _)]
  rfl

theorem eq_append_of_readFrameHeader {data rest : Bytes}
    (h : readFrameHeader.run data = .ok (header, rest)) :
    data = header.encode ++ rest ∧ header.Fits := by
  obtain ⟨_, _, hmagic, h⟩ := run_bind_eq_ok h
  obtain ⟨path, _, hpath, h⟩ := run_bind_eq_ok h
  obtain ⟨argc, _, hargc, h⟩ := run_bind_eq_ok h
  obtain ⟨envc, _, henvc, h⟩ := run_bind_eq_ok h
  obtain ⟨stdinLen, _, hstdin, h⟩ := run_bind_eq_ok h
  cases h
  obtain rfl := eq_append_of_expectMagic hmagic
  obtain ⟨rfl, hpathFits⟩ := eq_append_of_readString hpath
  obtain ⟨rfl, hargcLt⟩ := eq_append_of_readU32 hargc
  obtain ⟨rfl, henvcLt⟩ := eq_append_of_readU32 henvc
  obtain ⟨rfl, hstdinLt⟩ := eq_append_of_readU32 hstdin
  refine ⟨?_, hpathFits, hargcLt, henvcLt, hstdinLt⟩
  simp [FrameHeader.encode]

/-- The counts a frame announces are covered by its length: the one of the arguments in a frame that
begins with a header, and the one of the environment where the arguments are there as well. -/
def CountsFit (data : Bytes) : Prop :=
  ∀ (header : FrameHeader) (rest : Bytes), header.Fits → data = header.encode ++ rest →
    header.argc ≤ data.length ∧
      ∀ (argv : List Text) (rest' : Bytes), (∀ item ∈ argv, Fits item) →
        argv.length = header.argc → rest = argv.flatMap (encodeRecord ∘ encodeText) ++ rest' →
          header.envc ≤ data.length

/-- The capacities that are asked for, by what `BinaryCursor` reads. -/
def requestedCapacities (data : Bytes) : List ℕ :=
  match readFrameHeader.run data with
  | .error _ => []
  | .ok (header, rest) =>
      match (readStrings header.argc).run rest with
      | .error _ => [header.argc]
      | .ok _ => [header.argc, header.envc]

theorem countsFit_iff (data : Bytes) :
    CountsFit data ↔ ∀ capacity ∈ requestedCapacities data, capacity ≤ data.length := by
  unfold requestedCapacities
  constructor
  · intro h
    cases hheader : readFrameHeader.run data with
    | error => simp
    | ok result =>
      obtain ⟨header, rest⟩ := result
      obtain ⟨hdata, hfits⟩ := eq_append_of_readFrameHeader hheader
      obtain ⟨hargc, henvc⟩ := h header rest hfits hdata
      cases hargv : (readStrings header.argc).run rest with
      | error => simpa [hargv] using hargc
      | ok =>
        obtain ⟨hrest, hlen, hall⟩ := eq_append_of_readStrings hargv
        simpa [hargv] using ⟨hargc, henvc _ _ hall hlen hrest⟩
  · intro h header rest hfits hdata
    rw [hdata, readFrameHeader_append hfits rest] at h
    rw [← hdata] at h
    constructor
    · apply h
      cases hargv : (readStrings header.argc).run rest with
      | error | ok => simp [hargv]
    · intro argv rest' hall hlen hrest
      have hargv := readStrings_append argv hall rest'
      rw [hlen, ← hrest] at hargv
      apply h
      simp [hargv]

/-! ### The parsers on a slice -/

namespace Slice

variable (data : Slice target)

theorem agrees_readHeader : FrameReader.Agrees data (FrameReader.readHeader data) readFrameHeader :=
  (FrameReader.agrees_expectMagic data _).bind fun _ =>
    (FrameReader.agrees_readString data).bind fun _ =>
      (FrameReader.agrees_readU32 data).bind fun _ =>
        (FrameReader.agrees_readU32 data).bind fun _ =>
          (FrameReader.agrees_readU32 data).bind fun _ => .pure _

theorem agrees_parsePayload :
    FrameReader.Agrees data (FrameReader.parseGuestVirtualProcessPayload data)
      readGuestVirtualProcessPayload := by
  have hheader : readGuestVirtualProcessPayload = (do
      let header ← readFrameHeader
      let argv ← readStrings header.argc
      let env ← readEnvironment header.envc OrdMap.empty
      let stdin ← readBytes header.stdinLen
      let cwd := (env.get "PWD".toList).getD "/".toList
      return { executablePath := header.executablePath, argv, cwd, env, stdin }) := by
    simp [readGuestVirtualProcessPayload, readFrameHeader]
  rw [hheader]
  apply (agrees_readHeader data).bind
  intro header
  apply FrameReader.Agrees.withCapacity
  apply (FrameReader.agrees_readStrings data header.argc).bind
  intro argv
  apply FrameReader.Agrees.withCapacity
  apply (FrameReader.agrees_readEnvironment data header.envc OrdMap.empty).bind
  intro env
  apply (FrameReader.agrees_readBytes data header.stdinLen).bind
  intro stdin
  exact .pure _

/-- The parser on a slice returns what the one of `BinaryCursor` returns, and fails where it
fails. -/
theorem parsePayload_result :
    match data.parsePayload.1 with
    | .ok payload => parseGuestVirtualProcessPayload data.bytes = .ok payload
    | .error halt => ∃ message,
        parseGuestVirtualProcessPayload data.bytes = .error message ∧
          halt.Reports "binary payload is too large" message := by
  have h := data.agrees_parsePayload ⟨0, []⟩ (Nat.zero_le _)
  unfold parsePayload parseGuestVirtualProcessPayload
  rcases hparse : FrameReader.parseGuestVirtualProcessPayload data ⟨0, []⟩ with ⟨halt | payload, s⟩
  · rw [hparse] at h
    obtain ⟨message, hread, hreports⟩ := h
    refine ⟨message, ?_, hreports⟩
    rw [List.drop_zero] at hread
    rw [hread]
    rfl
  · rw [hparse] at h
    have hread := h.2
    rw [List.drop_zero] at hread
    rw [hread]
    rfl

/-- The header is followed by a first request, and the arguments by a second one. -/
theorem parsePayload_capacities : data.parsePayload.2 = requestedCapacities data.bytes := by
  show (FrameReader.parseGuestVirtualProcessPayload data ⟨0, []⟩).2.capacities = _
  unfold FrameReader.parseGuestVirtualProcessPayload requestedCapacities
  have hheader := agrees_readHeader data
  have hfrugal := FrameReader.frugal_readHeader data
  have hstart : (⟨0, []⟩ : CursorState).cursor ≤ data.bytes.length := Nat.zero_le _
  cases hread : readFrameHeader.run data.bytes with
  | error => exact hheader.capacities_of_error hfrugal hstart hread _
  | ok result =>
    obtain ⟨header, rest⟩ := result
    obtain ⟨middle, hrun, hcursor, hrest, hnone⟩ :=
      hheader.bind_of_ok hfrugal hstart hread _
    rw [hrun]
    -- the state behind `Vec::with_capacity`
    let state : CursorState := ⟨middle.cursor, middle.capacities ++ [header.argc]⟩
    have hstate : state.capacities = [header.argc] := by simp [state, hnone]
    have hcursor : state.cursor ≤ data.bytes.length := hcursor
    have hargs := FrameReader.agrees_readStrings data header.argc
    have hfrugalArgs := FrameReader.frugal_readStrings data header.argc
    show ((FrameReader.readStrings data header.argc >>= _) state).2.capacities =
      match (readStrings header.argc).run rest with
      | .error _ => [header.argc]
      | .ok _ => [header.argc, header.envc]
    subst hrest
    cases hargv : (readStrings header.argc).run (data.bytes.drop middle.cursor) with
    | error => exact (hargs.capacities_of_error hfrugalArgs hcursor hargv _).trans hstate
    | ok result =>
      obtain ⟨argv, rest⟩ := result
      obtain ⟨last, hrun, -, -, hlast⟩ := hargs.bind_of_ok hfrugalArgs hcursor hargv _
      rw [hrun]
      have hframe : FrameReader.Frugal (do
          let env ← FrameReader.readEnvironment data header.envc OrdMap.empty
          let stdin ← FrameReader.readBytes data header.stdinLen
          let cwd := (env.get "PWD".toList).getD "/".toList
          return ({ executablePath := header.executablePath, argv, cwd, env, stdin } :
            GuestVirtualProcessPayload)) := by
        apply (FrameReader.frugal_readEnvironment data header.envc OrdMap.empty).bind
        intro env
        exact (FrameReader.frugal_readBytes data header.stdinLen).bind fun stdin => .pure _
      have hkept := hframe ⟨last.cursor, last.capacities ++ [header.envc]⟩
      refine hkept.trans ?_
      rw [hlast, hstate]
      rfl

/-- Every range that is cut out lies inside the slice. -/
theorem decodeResponse_result :
    match data.decodeResponse with
    | .ok response => decodeVirtualProcessResponse data.bytes = .ok response
    | .error halt => ∃ message, decodeVirtualProcessResponse data.bytes = .error message ∧
        halt.Reports "virtual executable response is too large" message := by
  unfold decodeResponse decodeVirtualProcessResponse
  by_cases hlen : data.bytes.length < 16
  · simp only [hlen, true_or, if_true]
    exact ⟨_, rfl, .inl rfl⟩
  have hmagic := data.range_eq (by decide : 0 ≤ 4) (by omega)
  have hcode := data.range_eq (by decide : 4 ≤ 8) (by omega)
  have hout := data.range_eq (by decide : 8 ≤ 12) (by omega)
  have herr := data.range_eq (by decide : 12 ≤ 16) (by omega)
  simp only [if_neg hlen, hmagic, hcode, hout, herr]
  set stdoutLen := ofLittleEndian ((data.bytes.drop 8).take 4) with hstdoutLen
  set stderrLen := ofLittleEndian ((data.bytes.drop 12).take 4) with hstderrLen
  by_cases hm : data.bytes.take 4 = virtualResponseMagic
  · simp only [Nat.sub_zero, List.drop_zero, hm, ne_eq, not_true, if_false, hlen, or_self, bind,
      Except.bind, Nat.reduceSub, pure, Except.pure, ← hstdoutLen, ← hstderrLen]
    have hlength := data.length_le
    rcases lt_or_ge data.bytes.length (16 + stdoutLen + stderrLen) with hshort | hwhole
    · simp only [if_pos hshort]
      rcases lt_or_ge target.usizeMax (16 + stdoutLen) with hover | hfirst
      · rw [Target.checkedAdd_of_lt hover]
        exact ⟨_, rfl, .inr rfl⟩
      rw [Target.checkedAdd_of_le hfirst]
      simp only [Option.bind_some]
      rcases lt_or_ge target.usizeMax (16 + stdoutLen + stderrLen) with hover | hsecond
      · rw [Target.checkedAdd_of_lt hover]
        exact ⟨_, rfl, .inr rfl⟩
      · rw [Target.checkedAdd_of_le hsecond]
        simp only [if_pos hshort]
        exact ⟨_, rfl, .inl rfl⟩
    · -- both sums are at most the length of the slice
      rw [Target.checkedAdd_of_le (by omega)]
      simp only [Option.bind_some, Target.checkedAdd_of_le (hwhole.trans hlength),
        if_neg (not_lt.2 hwhole)]
      rw [Target.add_of_le (by omega)]
      simp only [data.range_eq (Nat.le_add_right 16 stdoutLen) (by omega),
        data.range_eq (Nat.le_add_right (16 + stdoutLen) stderrLen) hwhole,
        Nat.add_sub_cancel_left]
  · simp only [Nat.sub_zero, List.drop_zero, hm, ne_eq, not_false_eq_true, if_true, or_true, bind,
      Except.bind]
    exact ⟨_, rfl, .inl rfl⟩

/-- The two parsers never panic, and what they ask for is covered by the length of the slice exactly
when the counts of the frame are. -/
theorem safe_iff_countsFit : data.Safe ↔ CountsFit data.bytes := by
  rw [countsFit_iff, ← parsePayload_capacities]
  refine ⟨fun h => h.2.2, fun h => ⟨?_, ?_, h⟩⟩
  · intro hpanic
    have hresult := data.parsePayload_result
    rw [hpanic] at hresult
    exact hresult.elim fun _ h => h.2
  · intro hpanic
    have hresult := data.decodeResponse_result
    rw [hpanic] at hresult
    exact hresult.elim fun _ h => h.2

end Slice

/-- A target with 64 bits. -/
def wideTarget : Target := ⟨2 ^ 64 - 1, by decide⟩

/-- A frame of nothing but a header, with the largest number of arguments. -/
def boastfulHeader : FrameHeader := ⟨[], 2 ^ 32 - 1, 0, 0⟩

def boastfulFrame : Slice wideTarget := ⟨boastfulHeader.encode, by decide⟩

/-- Room for 4294967295 arguments is asked for on the word of twenty bytes. -/
theorem not_safe_boastfulFrame : ¬boastfulFrame.Safe := by
  rintro ⟨-, -, h⟩
  rw [Slice.parsePayload_capacities, ← countsFit_iff] at h
  have hargc := (h boastfulHeader [] (by decide) (by simp [boastfulFrame])).1
  exact absurd hargc (by decide)

end WasmHost

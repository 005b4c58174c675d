import WasmHost.Lib.Except
import WasmHost.Lib.OrdMap
import WasmHost.Text

/-!
# Frames of a virtual process

The two frames that cross `/dev/wasm-host-virtual-exec`: the request a launcher writes, read by
`parse_guest_virtual_process_payload` through a `BinaryCursor`, and the response it reads back.

A `BinaryCursor` is a computation on the bytes not yet read. Each of its operations takes what
the encoder of the same name put in front (`readRecord_append` and its neighbours), and
`parseGuestVirtualProcessPayload_encodeRequest` puts these together.
-/

namespace WasmHost

open List

/-- `BinaryCursor`: reads from the front of the bytes not yet read; an error is its text. -/
abbrev BinaryCursor := StateT Bytes (Except String)

namespace BinaryCursor

/-- Reads bytes. -/
def readBytes (len : ℕ) : BinaryCursor Bytes := fun data =>
  if data.length < len then .error "binary payload is truncated"
  else .ok (data.take len, data.drop len)

/-- Reads the magic bytes. -/
def expectMagic (expected : Bytes) : BinaryCursor Unit := do
  let actual ← readBytes expected.length
  if actual = expected then return () else throw "invalid binary payload magic"

/-- Reads a number. -/
def readU32 : BinaryCursor ℕ := do
  let bytes ← readBytes 4
  return ofLittleEndian bytes

/-- Reads a text. -/
def readString : BinaryCursor Text := do
  let len ← readU32
  let bytes ← readBytes len
  match decodeText bytes with
  | some text => return text
  | none => throw "binary payload string is not UTF-8"

/-- The loop over the arguments. -/
def readStrings : ℕ → BinaryCursor (List Text)
  | 0 => return []
  | count + 1 => do
      let item ← readString
      let items ← readStrings count
      return item :: items

end BinaryCursor

/-- An item of an environment; one without `=` is passed over, and a later item with the same
key takes the place of an earlier one. -/
def insertEnvItem (env : OrdMap Text Text) (item : Text) : OrdMap Text Text :=
  match splitOnce '=' item with
  | none => env
  | some (key, value) => env.set key value

def environmentOf (items : List Text) : OrdMap Text Text :=
  items.foldl insertEnvItem OrdMap.empty

namespace BinaryCursor

/-- The loop over the environment. -/
def readEnvironment : ℕ → OrdMap Text Text → BinaryCursor (OrdMap Text Text)
  | 0, env => return env
  | count + 1, env => do
      let item ← readString
      readEnvironment count (insertEnvItem env item)

end BinaryCursor

/-- `GuestVirtualProcessPayload`. The source keeps `stdin` in base64. -/
structure GuestVirtualProcessPayload where
  executablePath : Text
  argv : List Text
  cwd : Text
  env : OrdMap Text Text
  stdin : Bytes

def virtualProcessMagic : Bytes := [0x55, 0x58, 0x56, 0x31]

def virtualResponseMagic : Bytes := [0x55, 0x58, 0x52, 0x31]

open BinaryCursor in
/-- Reads a request. -/
def readGuestVirtualProcessPayload : BinaryCursor GuestVirtualProcessPayload := do
  expectMagic virtualProcessMagic
  let executablePath ← readString
  let argc ← readU32
  let envc ← readU32
  let stdinLen ← readU32
  let argv ← readStrings argc
  let env ← readEnvironment envc OrdMap.empty
  let stdin ← readBytes stdinLen
  let cwd := (env.get "PWD".toList).getD "/".toList
  return { executablePath, argv, cwd, env, stdin }

/-- `parse_guest_virtual_process_payload`. Bytes behind the standard input are ignored. -/
def parseGuestVirtualProcessPayload (data : Bytes) :
    Except String GuestVirtualProcessPayload :=
  (readGuestVirtualProcessPayload.run data).map Prod.fst

/-- `VirtualProcessResponsePayload`; the return code is an `i32`. -/
structure VirtualProcessResponsePayload where
  returncode : BitVec 32
  stdout : Bytes
  stderr : Bytes
  deriving DecidableEq

/-- `encode_virtual_process_response`. The lengths are written `as u32`. -/
def encodeVirtualProcessResponse (response : VirtualProcessResponsePayload) : Bytes :=
  virtualResponseMagic ++ littleEndian 4 response.returncode.toNat ++
    littleEndian 4 response.stdout.length ++ littleEndian 4 response.stderr.length ++
    response.stdout ++ response.stderr

/-- `decode_virtual_process_response`. -/
def decodeVirtualProcessResponse (data : Bytes) : Except String VirtualProcessResponsePayload :=
  if data.length < 16 ∨ data.take 4 ≠ virtualResponseMagic then
    .error "invalid virtual executable response header"
  else
    let returncode := BitVec.ofNat 32 (ofLittleEndian ((data.drop 4).take 4))
    let stdoutLen := ofLittleEndian ((data.drop 8).take 4)
    let stderrLen := ofLittleEndian ((data.drop 12).take 4)
    if data.length < 16 + stdoutLen + stderrLen then
      .error "virtual executable response is truncated"
    else .ok {
      returncode
      stdout := (data.drop 16).take stdoutLen
      stderr := (data.drop (16 + stdoutLen)).take stderrLen }

/-! ### Reading what was written -/

/-- A length and that many bytes. -/
def encodeRecord (bytes : Bytes) : Bytes := littleEndian 4 bytes.length ++ bytes

/-- The request frame of a launcher. -/
def encodeRequest (path : Bytes) (argv env : List Bytes) (stdin : Bytes) : Bytes :=
  virtualProcessMagic ++ encodeRecord path ++ littleEndian 4 argv.length ++
    littleEndian 4 env.length ++ littleEndian 4 stdin.length ++
    argv.flatMap encodeRecord ++ env.flatMap encodeRecord ++ stdin

namespace BinaryCursor

variable {data rest : Bytes} {value : ℕ} {text : Text}

/-- What follows a reading sees its result and the bytes it left. -/
theorem run_bind_of_ok {α β : Type} {reading : BinaryCursor α} {a : α}
    (h : reading.run data = .ok (a, rest)) (next : α → BinaryCursor β) :
    (reading >>= next).run data = (next a).run rest := by
  rw [StateT.run_bind, h]
  rfl

theorem readBytes_append (bytes rest : Bytes) :
    (readBytes bytes.length).run (bytes ++ rest) = .ok (bytes, rest) := by
  have hlen : ¬(bytes ++ rest).length < bytes.length := by simp
  show readBytes bytes.length (bytes ++ rest) = _
  rw [readBytes, if_neg hlen, take_left, drop_left]

theorem expectMagic_append (expected rest : Bytes) :
    (expectMagic expected).run (expected ++ rest) = .ok ((), rest) := by
  rw [expectMagic, run_bind_of_ok (readBytes_append expected rest), if_pos rfl]
  rfl

theorem readU32_append (h : value < 2 ^ 32) (rest : Bytes) :
    readU32.run (littleEndian 4 value ++ rest) = .ok (value, rest) := by
  have hread := readBytes_append (littleEndian 4 value) rest
  rw [length_littleEndian] at hread
  rw [readU32, run_bind_of_ok hread, ofLittleEndian_littleEndian, Nat.mod_eq_of_lt (by omega)]
  rfl

/-- The texts that fit behind a length. -/
def Fits (text : Text) : Prop := (encodeText text).length < 2 ^ 32

/-- The length of a text can be checked. -/
instance (text : Text) : Decidable (Fits text) := inferInstanceAs (Decidable (_ < _))

theorem readString_append (h : Fits text) (rest : Bytes) :
    readString.run (encodeRecord (encodeText text) ++ rest) = .ok (text, rest) := by
  rw [readString, encodeRecord, append_assoc, run_bind_of_ok (readU32_append h _),
    run_bind_of_ok (readBytes_append _ rest), decodeText_encodeText]
  rfl

theorem readStrings_append (items : List Text) (h : ∀ item ∈ items, Fits item) (rest : Bytes) :
    (readStrings items.length).run (items.flatMap (encodeRecord ∘ encodeText) ++ rest) =
      .ok (items, rest) := by
  induction items with
  | nil => rfl
  | cons item items ih =>
    obtain ⟨hitem, hitems⟩ := forall_mem_cons.1 h
    rw [length_cons, readStrings, flatMap_cons, append_assoc]
    simp only [Function.comp_apply]
    rw [run_bind_of_ok (readString_append hitem _), run_bind_of_ok (ih hitems)]
    rfl

theorem readEnvironment_append (items : List Text) (h : ∀ item ∈ items, Fits item) (rest : Bytes)
    (env : OrdMap Text Text) :
    (readEnvironment items.length env).run
        (items.flatMap (encodeRecord ∘ encodeText) ++ rest) =
      .ok (items.foldl insertEnvItem env, rest) := by
  induction items generalizing env with
  | nil => rfl
  | cons item items ih =>
    obtain ⟨hitem, hitems⟩ := forall_mem_cons.1 h
    rw [length_cons, readEnvironment, flatMap_cons, append_assoc]
    simp only [Function.comp_apply]
    rw [run_bind_of_ok (readString_append hitem _), ih hitems]
    rfl

/-! ### What a reading took -/

/-- A sequence that succeeds is two readings that do. -/
theorem run_bind_eq_ok {α β : Type} {reading : BinaryCursor α} {next : α → BinaryCursor β} {b : β}
    (h : (reading >>= next).run data = .ok (b, rest)) :
    ∃ a middle, reading.run data = .ok (a, middle) ∧ (next a).run middle = .ok (b, rest) := by
  obtain ⟨⟨a, middle⟩, hread, hnext⟩ := Except.bind_eq_ok_iff.1 h
  exact ⟨a, middle, hread, hnext⟩

theorem eq_append_of_readBytes {len : ℕ} {bytes : Bytes}
    (h : (readBytes len).run data = .ok (bytes, rest)) :
    data = bytes ++ rest ∧ bytes.length = len := by
  change readBytes len data = .ok (bytes, rest) at h
  unfold readBytes at h
  split at h
  · cases h
  next hlen =>
    cases h
    refine ⟨(take_append_drop len data).symm, ?_⟩
    rw [length_take]
    omega

theorem eq_append_of_expectMagic {expected : Bytes} {u : Unit}
    (h : (expectMagic expected).run data = .ok (u, rest)) : data = expected ++ rest := by
  obtain ⟨actual, middle, hread, hnext⟩ := run_bind_eq_ok h
  obtain ⟨rfl, -⟩ := eq_append_of_readBytes hread
  split at hnext
  next hmagic =>
    cases hnext
    rw [hmagic]
  · cases hnext

theorem eq_append_of_readU32 (h : readU32.run data = .ok (value, rest)) :
    data = littleEndian 4 value ++ rest ∧ value < 2 ^ 32 := by
  obtain ⟨bytes, middle, hread, hnext⟩ := run_bind_eq_ok h
  obtain ⟨rfl, hlen⟩ := eq_append_of_readBytes hread
  cases hnext
  have hbytes := littleEndian_ofLittleEndian bytes
  have hlt := ofLittleEndian_lt bytes
  rw [hlen] at hbytes hlt
  rw [hbytes]
  exact ⟨rfl, hlt⟩

theorem eq_append_of_readString (h : readString.run data = .ok (text, rest)) :
    data = encodeRecord (encodeText text) ++ rest ∧ Fits text := by
  obtain ⟨len, middle, hlen, hnext⟩ := run_bind_eq_ok h
  obtain ⟨bytes, middle', hbytes, htext⟩ := run_bind_eq_ok hnext
  obtain ⟨rfl, hlt⟩ := eq_append_of_readU32 hlen
  obtain ⟨rfl, rfl⟩ := eq_append_of_readBytes hbytes
  split at htext
  next text' hdecode =>
    cases htext
    obtain rfl := encodeText_of_decodeText hdecode
    rw [encodeRecord, append_assoc]
    exact ⟨rfl, hlt⟩
  · cases htext

theorem eq_append_of_readStrings {count : ℕ} {items : List Text}
    (h : (readStrings count).run data = .ok (items, rest)) :
    data = items.flatMap (encodeRecord ∘ encodeText) ++ rest ∧ items.length = count ∧
      ∀ item ∈ items, Fits item := by
  induction count generalizing data items with
  | zero =>
    cases h
    exact ⟨rfl, rfl, nofun⟩
  | succ count ih =>
    obtain ⟨item, middle, hitem, hnext⟩ := run_bind_eq_ok h
    obtain ⟨items', middle', hitems, hreturn⟩ := run_bind_eq_ok hnext
    cases hreturn
    obtain ⟨rfl, hfits⟩ := eq_append_of_readString hitem
    obtain ⟨rfl, rfl, hall⟩ := ih hitems
    refine ⟨?_, rfl, forall_mem_cons.2 ⟨hfits, hall⟩⟩
    rw [flatMap_cons, append_assoc]
    rfl

end BinaryCursor

open BinaryCursor

/-- The payload that a request frame for these texts stands for. -/
def guestPayload (path : Text) (argv env : List Text) (stdin : Bytes) :
    GuestVirtualProcessPayload where
  executablePath := path
  argv := argv
  cwd := ((environmentOf env).get "PWD".toList).getD "/".toList
  env := environmentOf env
  stdin := stdin

/-- The request frame of a launcher is read back, whatever follows it. -/
theorem parseGuestVirtualProcessPayload_encodeRequest (path : Text) (argv env : List Text)
    (stdin : Bytes) (hpath : Fits path) (hargv : ∀ item ∈ argv, Fits item)
    (henv : ∀ item ∈ env, Fits item) (hargc : argv.length < 2 ^ 32) (henvc : env.length < 2 ^ 32)
    (hstdin : stdin.length < 2 ^ 32) (rest : Bytes) :
    parseGuestVirtualProcessPayload
        (encodeRequest (encodeText path) (argv.map encodeText) (env.map encodeText) stdin ++ rest) =
      .ok (guestPayload path argv env stdin) := by
  unfold parseGuestVirtualProcessPayload readGuestVirtualProcessPayload encodeRequest
  simp only [length_map, flatMap_map, append_assoc]
  rw [run_bind_of_ok (expectMagic_append _ _), run_bind_of_ok (readString_append hpath _),
    run_bind_of_ok (readU32_append hargc _), run_bind_of_ok (readU32_append henvc _),
    run_bind_of_ok (readU32_append hstdin _)]
  have hargs := readStrings_append argv hargv
  have hitems := fun rest => readEnvironment_append env henv rest OrdMap.empty
  simp only [Function.comp_def] at hargs hitems
  rw [run_bind_of_ok (hargs _), run_bind_of_ok (hitems _), run_bind_of_ok (readBytes_append _ _)]
  rfl

/-- A field is found behind the fields in front of it. -/
theorem take_drop_flatten (before after : List Bytes) (field : Bytes) {k n : ℕ}
    (hk : before.flatten.length = k) (hn : field.length = n) :
    (((before ++ field :: after).flatten).drop k).take n = field := by
  rw [← hk, ← hn, flatten_append, flatten_cons, drop_left, take_left]

/-- A response whose two outputs fit behind their lengths is read back, whatever follows it. -/
theorem decodeVirtualProcessResponse_encode {response : VirtualProcessResponsePayload}
    (hout : response.stdout.length < 2 ^ 32) (herr : response.stderr.length < 2 ^ 32)
    (rest : Bytes) :
    decodeVirtualProcessResponse (encodeVirtualProcessResponse response ++ rest) =
      .ok response := by
  obtain ⟨returncode, stdout, stderr⟩ := response
  simp only at hout herr
  let code := littleEndian 4 returncode.toNat
  let outLen := littleEndian 4 stdout.length
  let errLen := littleEndian 4 stderr.length
  have hdata : encodeVirtualProcessResponse ⟨returncode, stdout, stderr⟩ ++ rest =
      [virtualResponseMagic, code, outLen, errLen, stdout, stderr, rest].flatten := by
    simp [encodeVirtualProcessResponse, code, outLen, errLen]
  have hmagic := take_drop_flatten [] [code, outLen, errLen, stdout, stderr, rest]
    virtualResponseMagic (k := 0) (n := 4) rfl rfl
  have hcode := take_drop_flatten [virtualResponseMagic] [outLen, errLen, stdout, stderr, rest]
    code (k := 4) rfl (length_littleEndian 4 _)
  have houtLen := take_drop_flatten [virtualResponseMagic, code] [errLen, stdout, stderr, rest]
    outLen (k := 8) rfl (length_littleEndian 4 _)
  have herrLen := take_drop_flatten [virtualResponseMagic, code, outLen] [stdout, stderr, rest]
    errLen (k := 12) rfl (length_littleEndian 4 _)
  have hstdout := take_drop_flatten [virtualResponseMagic, code, outLen, errLen] [stderr, rest]
    stdout (k := 16) rfl rfl
  have hstderr := take_drop_flatten [virtualResponseMagic, code, outLen, errLen, stdout] [rest]
    stderr (k := 16 + stdout.length)
    (by simp [code, outLen, errLen, virtualResponseMagic]; omega) rfl
  have hlength : [virtualResponseMagic, code, outLen, errLen, stdout, stderr, rest].flatten.length =
      16 + stdout.length + stderr.length + rest.length := by
    simp [code, outLen, errLen, virtualResponseMagic]
    omega
  simp only [cons_append, nil_append, drop_zero] at hmagic hcode houtLen herrLen
  simp only [cons_append, nil_append] at hstdout hstderr
  have hreturn : BitVec.ofNat 32 (ofLittleEndian code) = returncode := by
    rw [ofLittleEndian_littleEndian, Nat.mod_eq_of_lt (by omega), BitVec.ofNat_toNat,
      BitVec.setWidth_eq]
  unfold decodeVirtualProcessResponse
  rw [hdata, hmagic, hcode, houtLen, herrLen, hreturn, hlength, ofLittleEndian_littleEndian,
    ofLittleEndian_littleEndian, Nat.mod_eq_of_lt (by omega), Nat.mod_eq_of_lt (by omega)]
  simp only [hstdout, hstderr]
  rw [if_neg (by simp; omega), if_neg (by omega)]

end WasmHost

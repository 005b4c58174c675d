import Mathlib.Algebra.Order.Group.Nat
import Mathlib.Data.List.DropRight
import WasmHost.Lib.SplitOnce

/-!
# HTTP/1.1 messages

The grammar of HTTP/1.1 requests as a reader of bytes: lines, field lines, the request line, the
chunked coding and the framing of the body. A reader returns what it has read and the bytes
behind it, so that a message followed by others is still one message.

Each piece of the grammar has a printer, and a lemma that the reader takes back what the printer
put in front of arbitrary bytes (`readFields_print`, `readChunked_print`, `readRequest_print`).
-/

namespace Http1

open List

/-- Octets on the wire. -/
abbrev Bytes := List UInt8

/-- The bytes of a list are gone through, not all the bytes there are. -/
instance decidableForallByte {p : UInt8 → Prop} [DecidablePred p] (data : Bytes) :
    Decidable (∀ b ∈ data, p b) := List.decidableBAll p data

def crlf : Bytes := [13, 10]

/-- The line in front, up to the first CRLF, and what is behind it. -/
def readLine : Bytes → Option (Bytes × Bytes)
  | [] => none
  | b :: rest =>
    if b = 13 ∧ rest.head? = some 10 then some ([], rest.tail)
    else (readLine rest).map fun (line, after) => (b :: line, after)

def isDigit (b : UInt8) : Bool := 48 ≤ b ∧ b ≤ 57

def isAlpha (b : UInt8) : Bool := (65 ≤ b ∧ b ≤ 90) ∨ (97 ≤ b ∧ b ≤ 122)

/-- `tchar`. -/
def isTchar (b : UInt8) : Bool :=
  isDigit b ∨ isAlpha b ∨ b ∈ [33, 35, 36, 37, 38, 39, 42, 43, 45, 46, 94, 95, 96, 124, 126]

def IsToken (data : Bytes) : Prop := data ≠ [] ∧ ∀ b ∈ data, isTchar b

/-- Tokens can be recognised. -/
instance (data : Bytes) : Decidable (IsToken data) := inferInstanceAs (Decidable (_ ∧ _))

/-- The bytes of a field value: visible ones, space, tab and those outside ASCII. -/
def isFieldByte (b : UInt8) : Bool := b = 9 ∨ (32 ≤ b ∧ b ≠ 127)

def isBlank (b : UInt8) : Bool := b = 32 ∨ b = 9

/-- The value without the white space around it. -/
def trimBlanks (data : Bytes) : Bytes := (data.dropWhile isBlank).rdropWhile isBlank

def lowerByte (b : UInt8) : UInt8 := if 65 ≤ b ∧ b ≤ 90 then b + 32 else b

/-- Field names are compared without regard to case. -/
def lower (data : Bytes) : Bytes := data.map lowerByte

/-- A header field. -/
structure Field where
  name : Bytes
  value : Bytes
  deriving DecidableEq

def IsFieldValue (value : Bytes) : Prop := trimBlanks value = value ∧ ∀ b ∈ value, isFieldByte b

/-- Field values can be recognised. -/
instance (value : Bytes) : Decidable (IsFieldValue value) := inferInstanceAs (Decidable (_ ∧ _))

/-- A field line. -/
def readField (line : Bytes) : Option Field := do
  let (name, value) ← splitOnce 58 line
  if IsToken name ∧ IsFieldValue (trimBlanks value) then
    some ⟨lower name, trimBlanks value⟩
  else none

/-- The field lines up to the empty line. -/
def readFieldsFuel : ℕ → Bytes → Option (List Field × Bytes)
  | 0, _ => none
  | fuel + 1, data => do
    let (line, rest) ← readLine data
    if line = [] then some ([], rest)
    else
      let field ← readField line
      let (fields, rest) ← readFieldsFuel fuel rest
      some (field :: fields, rest)

def readFields (data : Bytes) : Option (List Field × Bytes) := readFieldsFuel data.length data

/-- The values of the fields with this name. -/
def valuesOf (name : Bytes) (fields : List Field) : List Bytes :=
  (fields.filter fun field => field.name = name).map Field.value

/-! ### Numbers -/

/-- The value of a digit. -/
def digitOf (b : UInt8) : Option ℕ :=
  if isDigit b then some (b.toNat - 48)
  else if 97 ≤ b ∧ b ≤ 102 then some (b.toNat - 87)
  else if 65 ≤ b ∧ b ≤ 70 then some (b.toNat - 55)
  else none

/-- A number in the given radix; at least one digit. -/
def readNumber (radix : ℕ) (data : Bytes) : Option ℕ :=
  if data = [] then none
  else (data.mapM fun b => (digitOf b).filter (· < radix)).map
    (List.foldl (fun value digit => value * radix + digit) 0)

/-- The digits of a number, none in front that could be left out. -/
def printNumber (radix : ℕ) (value : ℕ) : Bytes :=
  (Nat.toDigits radix value).map fun c => UInt8.ofNat c.toNat

/-! ### The chunked coding -/

/-- The size in front of the extensions of a chunk. -/
def readChunkSize (line : Bytes) : Option ℕ :=
  match splitOnce 59 line with
  | none => readNumber 16 line
  | some (size, extension) =>
    if ∀ b ∈ extension, isFieldByte b then readNumber 16 (trimBlanks size) else none

/-- Reads chunks up to the last one. -/
def readChunksFuel : ℕ → Bytes → Option (Bytes × Bytes)
  | 0, _ => none
  | fuel + 1, data => do
    let (line, rest) ← readLine data
    let size ← readChunkSize line
    if size = 0 then
      let (_, rest) ← readFields rest
      some ([], rest)
    else if rest.length < size ∨ (rest.drop size).take 2 ≠ crlf then none
    else
      let (body, after) ← readChunksFuel fuel (rest.drop (size + 2))
      some (rest.take size ++ body, after)

/-- A chunked body with its trailers. -/
def readChunked (data : Bytes) : Option (Bytes × Bytes) := readChunksFuel data.length data

/-! ### Requests -/

/-- A request with its body. -/
structure Request where
  method : Bytes
  target : Bytes
  fields : List Field
  body : Bytes
  deriving DecidableEq

def isHexDigit (b : UInt8) : Bool := (digitOf b).isSome

/-- The characters of `pchar`, `/` and `?`, apart from percent-encodings. -/
def isTargetByte (b : UInt8) : Bool :=
  isDigit b ∨ isAlpha b ∨
    b ∈ [45, 46, 95, 126, 33, 36, 38, 39, 40, 41, 42, 43, 44, 59, 61, 58, 64, 47, 63]

/-- The characters of a path and a query. -/
def isTargetTail : Bytes → Bool
  | [] => true
  | 37 :: hi :: lo :: rest => isHexDigit hi && isHexDigit lo && isTargetTail rest
  | b :: rest => isTargetByte b && isTargetTail rest

/-- `origin-form`. -/
def IsOriginForm (target : Bytes) : Prop := target.head? = some 47 ∧ isTargetTail target

/-- Targets in origin form can be recognised. -/
instance (target : Bytes) : Decidable (IsOriginForm target) :=
  inferInstanceAs (Decidable (_ ∧ _))

def version : Bytes := [72, 84, 84, 80, 47, 49, 46, 49]

/-- Reads the method and the target. -/
def readRequestLine (line : Bytes) : Option (Bytes × Bytes) := do
  let (method, rest) ← splitOnce 32 line
  let (target, rest) ← splitOnce 32 rest
  if IsToken method ∧ IsOriginForm target ∧ rest = version then some (method, target) else none

def contentLength : Bytes := "content-length".toUTF8.data.toList

def transferEncoding : Bytes := "transfer-encoding".toUTF8.data.toList

def chunkedCoding : Bytes := "chunked".toUTF8.data.toList

/-- The body of a request: chunked, of a given length, or none. A message that says both, or one
of them twice, is none. -/
def readRequestBody (fields : List Field) (data : Bytes) : Option (Bytes × Bytes) :=
  match valuesOf transferEncoding fields, valuesOf contentLength fields with
  | [], [] => some ([], data)
  | [], [length] => do
    let length ← readNumber 10 length
    if data.length < length then none else some (data.take length, data.drop length)
  | [coding], [] => if lower coding = chunkedCoding then readChunked data else none
  | _, _ => none

/-- The request in front and the bytes behind it. -/
def readRequest (data : Bytes) : Option (Request × Bytes) := do
  let (line, rest) ← readLine data
  let (method, target) ← readRequestLine line
  let (fields, rest) ← readFields rest
  let (body, rest) ← readRequestBody fields rest
  some (⟨method, target, fields, body⟩, rest)

/-! ### Lines and fields -/

variable {line : Bytes}

theorem readLine_append (h : 13 ∉ line) (rest : Bytes) :
    readLine (line ++ (crlf ++ rest)) = some (line, rest) := by
  induction line with
  | nil => rfl
  | cons b line ih =>
    obtain ⟨hb, hline⟩ : 13 ≠ b ∧ 13 ∉ line := by simpa using h
    rw [cons_append, readLine, if_neg (fun hcr => hb hcr.1.symm), ih hline]
    rfl

variable {data target rest method : Bytes} {b : UInt8} {field : Field} {fields : List Field}
    {fuel radix : ℕ} {chunks : List Bytes}

theorem IsToken.not_mem (h : IsToken data) (hb : isTchar b = false) :
    b ∉ data := fun hmem => by
  have := h.2 b hmem
  rw [hb] at this
  exact absurd this (by simp)

theorem IsFieldValue.not_mem {value : Bytes} (h : IsFieldValue value) (hb : isFieldByte b = false) :
    b ∉ value := fun hmem => by
  have := h.2 b hmem
  rw [hb] at this
  exact absurd this (by simp)

/-- The field line of a name and a value. -/
def printField (field : Field) : Bytes := field.name ++ ([58, 32] ++ field.value)

/-- A field that can be printed: the name is a token and the value has no byte that it must not
have. -/
def Field.Printable (field : Field) : Prop := IsToken field.name ∧ IsFieldValue field.value

/-- The field as a reader returns it. -/
def Field.canonical (field : Field) : Field := ⟨lower field.name, field.value⟩

theorem trimBlanks_blank_cons (hb : isBlank b = true) (data : Bytes) :
    trimBlanks (b :: data) = trimBlanks data := by
  rw [trimBlanks, dropWhile_cons_of_pos hb, trimBlanks]

theorem readField_print (h : field.Printable) :
    readField (printField field) = some field.canonical := by
  obtain ⟨hname, hvalue⟩ := h
  have hcut : splitOnce 58 (printField field) = some (field.name, 32 :: field.value) :=
    splitOnce_append (hname.not_mem (by decide)) (32 :: field.value)
  have htrim : trimBlanks (32 :: field.value) = field.value := by
    rw [trimBlanks_blank_cons (by decide), hvalue.1]
  rw [readField, hcut]
  show (if IsToken field.name ∧ IsFieldValue (trimBlanks (32 :: field.value)) then _ else _) = _
  rw [htrim, if_pos ⟨hname, hvalue⟩]
  rfl

theorem printField_not_mem_cr (h : field.Printable) : 13 ∉ printField field := by
  intro hmem
  rcases mem_append.1 hmem with hmem | hmem
  · exact h.1.not_mem (by decide) hmem
  · rcases mem_append.1 hmem with hmem | hmem
    · exact absurd hmem (by decide)
    · exact h.2.not_mem (by decide) hmem

theorem printField_ne_nil (field : Field) : printField field ≠ [] := by
  simp [printField]

/-- The lines of fields. -/
def printFields (fields : List Field) : Bytes :=
  fields.flatMap fun field => printField field ++ crlf

theorem readFieldsFuel_print (h : ∀ field ∈ fields, field.Printable) (rest : Bytes)
    (hfuel : fields.length < fuel) :
    readFieldsFuel fuel (printFields fields ++ (crlf ++ rest)) =
      some (fields.map Field.canonical, rest) := by
  induction fields generalizing fuel with
  | nil =>
    obtain ⟨fuel, rfl⟩ := Nat.exists_eq_add_one.2 hfuel
    rfl
  | cons field fields ih =>
    obtain ⟨fuel, rfl⟩ := Nat.exists_eq_add_one.2 (Nat.zero_lt_of_lt hfuel)
    obtain ⟨hfield, hfields⟩ := forall_mem_cons.1 h
    have hline := readLine_append (printField_not_mem_cr hfield)
      (printFields fields ++ (crlf ++ rest))
    have hdata : printFields (field :: fields) ++ (crlf ++ rest) =
        printField field ++ (crlf ++ (printFields fields ++ (crlf ++ rest))) := by
      simp [printFields]
    rw [hdata, readFieldsFuel, hline]
    simp only [Option.bind_eq_bind, Option.bind_some, if_neg (printField_ne_nil field),
      readField_print hfield, ih hfields (Nat.lt_of_succ_lt_succ hfuel)]
    rfl

/-- The fields of a message are read back, whatever follows them. -/
theorem readFields_print (h : ∀ field ∈ fields, field.Printable) (rest : Bytes) :
    readFields (printFields fields ++ (crlf ++ rest)) =
      some (fields.map Field.canonical, rest) := by
  refine readFieldsFuel_print h rest ?_
  have hcount : fields.length ≤ (printFields fields).length := by
    clear h
    induction fields with
    | nil => rfl
    | cons field fields ih =>
      simp only [printFields, flatMap_cons, length_append, crlf, length_cons] at ih ⊢
      omega
  simp only [length_append, crlf, length_cons, length_nil]
  omega

/-! ### Numbers -/

theorem digitOf_digitChar : ∀ digit < 16,
    digitOf (UInt8.ofNat (Nat.digitChar digit).toNat) = some digit := by
  decide

theorem mapM_digitOf_toDigits (hradix : 1 < radix) (hmax : radix ≤ 16) (value : ℕ) :
    ∃ digits : List ℕ, (printNumber radix value).mapM
        (fun b => (digitOf b).filter (· < radix)) = some digits ∧
      digits.foldl (fun value digit => value * radix + digit) 0 = value := by
  induction value using Nat.strongRecOn with
  | ind value ih =>
    have hdigit : ∀ digit < radix, [UInt8.ofNat (Nat.digitChar digit).toNat].mapM
        (fun b => (digitOf b).filter (· < radix)) = some [digit] := by
      intro digit hdigit
      rw [mapM_cons, digitOf_digitChar digit (by omega), Option.filter_some_pos (by simpa)]
      rfl
    unfold printNumber
    rw [Nat.toDigits_eq_if hradix]
    split
    next hsmall => exact ⟨[value], hdigit value hsmall, by simp⟩
    next hlarge =>
      obtain ⟨digits, hdigits, hvalue⟩ := ih (value / radix) (Nat.div_lt_self (by omega) hradix)
      refine ⟨digits ++ [value % radix], ?_, ?_⟩
      · rw [map_append, mapM_append, ← printNumber, hdigits]
        have hlast := hdigit (value % radix) (Nat.mod_lt _ (by omega))
        simp only [map_cons, map_nil, hlast]
        rfl
      · rw [foldl_append, hvalue]
        simp only [foldl_cons, foldl_nil]
        rw [Nat.mul_comm, Nat.div_add_mod]

theorem printNumber_ne_nil (radix value : ℕ) : printNumber radix value ≠ [] := by
  simp [printNumber, Nat.toDigits_ne_nil]

theorem readNumber_print (hradix : 1 < radix) (hmax : radix ≤ 16) (value : ℕ) :
    readNumber radix (printNumber radix value) = some value := by
  obtain ⟨digits, hdigits, hvalue⟩ := mapM_digitOf_toDigits hradix hmax value
  rw [readNumber, if_neg (printNumber_ne_nil radix value), hdigits, Option.map_some, hvalue]

theorem isSome_of_mapM {α β : Type} {f : α → Option β} {l : List α} {out : List β}
    (h : l.mapM f = some out) : ∀ a ∈ l, (f a).isSome := by
  induction l generalizing out with
  | nil => simp
  | cons a l ih =>
    rw [mapM_cons, Option.bind_eq_bind, Option.bind_eq_some_iff] at h
    obtain ⟨b, hb, h⟩ := h
    obtain ⟨rest, hrest, -⟩ := Option.bind_eq_some_iff.1 h
    intro x hx
    rcases mem_cons.1 hx with rfl | hx
    · rw [hb]
      rfl
    · exact ih hrest x hx

/-- Every byte of a printed number is a digit. -/
theorem isHexDigit_of_mem_printNumber (hradix : 1 < radix) (hmax : radix ≤ 16) {value : ℕ}
    (hb : b ∈ printNumber radix value) : isHexDigit b = true := by
  obtain ⟨digits, hdigits, -⟩ := mapM_digitOf_toDigits hradix hmax value
  have hsome := isSome_of_mapM hdigits b hb
  cases hdigit : digitOf b with
  | none => simp [hdigit] at hsome
  | some => simp [isHexDigit, hdigit]

theorem not_mem_printNumber (hradix : 1 < radix) (hmax : radix ≤ 16) (value : ℕ)
    (hb : isHexDigit b = false) : b ∉ printNumber radix value := fun hmem => by
  rw [isHexDigit_of_mem_printNumber hradix hmax hmem] at hb
  exact absurd hb (by simp)

theorem trimBlanks_of_forall (h : ∀ b ∈ data, isBlank b = false) : trimBlanks data = data := by
  have hdrop : data.dropWhile isBlank = data := by
    cases data with
    | nil => rfl
    | cons b data => rw [dropWhile_cons_of_neg (by simp [h b mem_cons_self])]
  rw [trimBlanks, hdrop, rdropWhile_eq_self_iff]
  intro hne
  simp [h _ (getLast_mem hne)]

theorem isFieldByte_of_isHexDigit (h : isHexDigit b = true) :
    isBlank b = false ∧ isFieldByte b = true := by
  have hblank : b ≠ 32 ∧ b ≠ 9 ∧ b ≠ 127 := by
    refine ⟨?_, ?_, ?_⟩ <;> rintro rfl <;> exact absurd h (by decide)
  have hle : 32 ≤ b := by
    unfold isHexDigit digitOf isDigit at h
    split at h
    next hd =>
      simp only [decide_eq_true_eq, UInt8.le_iff_toNat_le] at hd ⊢
      exact le_trans (by decide) hd.1
    · split at h
      next hd =>
        simp only [UInt8.le_iff_toNat_le] at hd ⊢
        exact le_trans (by decide) hd.1
      · split at h
        next hd =>
          simp only [UInt8.le_iff_toNat_le] at hd ⊢
          exact le_trans (by decide) hd.1
        · exact absurd h (by simp)
  simp [isBlank, isFieldByte, hblank, hle]

/-- A printed number can be the value of a field. -/
theorem isFieldValue_printNumber (hradix : 1 < radix) (hmax : radix ≤ 16) (value : ℕ) :
    IsFieldValue (printNumber radix value) := by
  have hdigits : ∀ b ∈ printNumber radix value, isBlank b = false ∧ isFieldByte b = true :=
    fun b hb => isFieldByte_of_isHexDigit (isHexDigit_of_mem_printNumber hradix hmax hb)
  exact ⟨trimBlanks_of_forall fun b hb => (hdigits b hb).1, fun b hb => (hdigits b hb).2⟩

/-! ### The chunked coding -/

/-- A chunk behind its size. -/
def printChunk (chunk : Bytes) : Bytes :=
  printNumber 16 chunk.length ++ (crlf ++ (chunk ++ crlf))

def lastChunk : Bytes := 48 :: crlf ++ crlf

theorem readChunkSize_print (size : ℕ) : readChunkSize (printNumber 16 size) = some size := by
  have hnone : splitOnce 59 (printNumber 16 size) = none :=
    splitOnce_eq_none_iff.2 (not_mem_printNumber (by decide) (by decide) size (by decide))
  rw [readChunkSize, hnone]
  exact readNumber_print (by decide) (by decide) size

theorem readChunksFuel_print (h : ∀ chunk ∈ chunks, chunk ≠ []) (rest : Bytes)
    (hfuel : chunks.length < fuel) :
    readChunksFuel fuel (chunks.flatMap printChunk ++ (lastChunk ++ rest)) =
      some (chunks.flatten, rest) := by
  induction chunks generalizing fuel with
  | nil =>
    obtain ⟨fuel, rfl⟩ := Nat.exists_eq_add_one.2 hfuel
    have hline : readLine (lastChunk ++ rest) = some ([48], crlf ++ rest) :=
      readLine_append (show (13 : UInt8) ∉ [48] by decide) (crlf ++ rest)
    have hfields : readFields (printFields [] ++ (crlf ++ rest)) = some ([], rest) :=
      readFields_print (by simp) rest
    rw [flatMap_nil, nil_append, readChunksFuel, hline]
    simp only [printFields, flatMap_nil, nil_append] at hfields
    simp only [Option.bind_eq_bind, Option.bind_some, show readChunkSize [48] = some 0 by decide,
      hfields]
    rfl
  | cons chunk chunks ih =>
    obtain ⟨fuel, rfl⟩ := Nat.exists_eq_add_one.2 (Nat.zero_lt_of_lt hfuel)
    obtain ⟨hchunk, hchunks⟩ := forall_mem_cons.1 h
    let behind := chunks.flatMap printChunk ++ (lastChunk ++ rest)
    have hdata : (chunk :: chunks).flatMap printChunk ++ (lastChunk ++ rest) =
        printNumber 16 chunk.length ++ (crlf ++ (chunk ++ (crlf ++ behind))) := by
      simp [printChunk, behind]
    have hcr : 13 ∉ printNumber 16 chunk.length :=
      not_mem_printNumber (by decide) (by decide) chunk.length (by decide)
    have hline := readLine_append hcr (chunk ++ (crlf ++ behind))
    have hpos : chunk.length ≠ 0 := by simpa using hchunk
    have hbody : ¬((chunk ++ (crlf ++ behind)).length < chunk.length ∨
        ((chunk ++ (crlf ++ behind)).drop chunk.length).take 2 ≠ crlf) := by
      rw [drop_left]
      simp [crlf]
    have hdrop : (chunk ++ (crlf ++ behind)).drop (chunk.length + 2) = behind := by
      rw [← drop_drop, drop_left]
      rfl
    rw [hdata, readChunksFuel, hline]
    simp only [Option.bind_eq_bind, Option.bind_some, readChunkSize_print, if_neg hpos,
      if_neg hbody, hdrop, take_left, behind, ih hchunks (Nat.lt_of_succ_lt_succ hfuel)]
    rfl

/-- A body in chunks is read back whole. -/
theorem readChunked_print (h : ∀ chunk ∈ chunks, chunk ≠ []) (rest : Bytes) :
    readChunked (chunks.flatMap printChunk ++ (lastChunk ++ rest)) =
      some (chunks.flatten, rest) := by
  refine readChunksFuel_print h rest ?_
  have hcount : chunks.length ≤ (chunks.flatMap printChunk).length := by
    clear h
    induction chunks with
    | nil => rfl
    | cons chunk chunks ih =>
      simp only [flatMap_cons, length_append, length_cons, printChunk, crlf] at ih ⊢
      omega
  simp only [length_append, lastChunk, crlf, length_cons, length_nil]
  omega

/-! ### Requests -/

/-- The request line and the fields. -/
def printHead (method target : Bytes) (fields : List Field) : Bytes :=
  method ++ (32 :: (target ++ (32 :: (version ++ (crlf ++ (printFields fields ++ crlf))))))

theorem isTargetTail_not_mem (h : isTargetTail target = true) (hb : isTargetByte b = false)
    (hhex : isHexDigit b = false) (hpercent : b ≠ 37) : b ∉ target := by
  induction target using isTargetTail.induct with
  | case1 => simp
  | case2 hi lo rest ih =>
    rw [isTargetTail, Bool.and_eq_true, Bool.and_eq_true] at h
    obtain ⟨⟨hhi, hlo⟩, hrest⟩ := h
    simp only [mem_cons, not_or]
    refine ⟨hpercent, ?_, ?_, ih hrest⟩
    · rintro rfl
      rw [hhi] at hhex
      exact absurd hhex (by simp)
    · rintro rfl
      rw [hlo] at hhex
      exact absurd hhex (by simp)
  | case3 c rest hne ih =>
    rw [isTargetTail.eq_3 c rest hne, Bool.and_eq_true] at h
    simp only [mem_cons, not_or]
    refine ⟨?_, ih h.2⟩
    rintro rfl
    rw [h.1] at hb
    exact absurd hb (by simp)

theorem IsOriginForm.not_mem (h : IsOriginForm target) (hb : isTargetByte b = false)
    (hhex : isHexDigit b = false) (hpercent : b ≠ 37) : b ∉ target :=
  isTargetTail_not_mem h.2 hb hhex hpercent

theorem readRequestLine_print (hmethod : IsToken method) (htarget : IsOriginForm target) :
    readRequestLine (method ++ 32 :: (target ++ 32 :: version)) = some (method, target) := by
  have hfirst : splitOnce 32 (method ++ 32 :: (target ++ 32 :: version)) =
      some (method, target ++ 32 :: version) :=
    splitOnce_append (hmethod.not_mem (by decide)) _
  have hsecond : splitOnce 32 (target ++ 32 :: version) = some (target, version) :=
    splitOnce_append (htarget.not_mem (by decide) (by decide) (by decide)) _
  rw [readRequestLine, hfirst]
  simp only [Option.bind_eq_bind, Option.bind_some, hsecond]
  rw [if_pos ⟨hmethod, htarget, trivial⟩]

/-- A request whose line and fields can be printed is read back with them and with the body that
its fields frame. -/
theorem readRequest_print {body : Bytes} (hmethod : IsToken method) (htarget : IsOriginForm target)
    (hfields : ∀ field ∈ fields, field.Printable)
    (hbody : readRequestBody (fields.map Field.canonical) data = some (body, rest)) :
    readRequest (printHead method target fields ++ data) =
      some (⟨method, target, fields.map Field.canonical, body⟩, rest) := by
  have hcr : 13 ∉ method ++ 32 :: (target ++ 32 :: version) := by
    simp only [mem_append, mem_cons, not_or]
    exact ⟨hmethod.not_mem (by decide), by decide,
      htarget.not_mem (by decide) (by decide) (by decide), by decide, by decide⟩
  have hline := readLine_append hcr (printFields fields ++ (crlf ++ data))
  have hdata : printHead method target fields ++ data =
      (method ++ 32 :: (target ++ 32 :: version)) ++
        (crlf ++ (printFields fields ++ (crlf ++ data))) := by
    simp [printHead]
  rw [hdata, readRequest, hline]
  simp only [Option.bind_eq_bind, Option.bind_some, readRequestLine_print hmethod htarget,
    readFields_print hfields data, hbody]

theorem isFieldValue_of_readField (h : readField line = some field) : IsFieldValue field.value := by
  obtain ⟨⟨name, value⟩, -, h⟩ := Option.bind_eq_some_iff.1 h
  simp only at h
  split at h
  next hprintable =>
    obtain rfl := Option.some.inj h
    exact hprintable.2
  · exact absurd h (by simp)

theorem isFieldValue_of_readFieldsFuel (h : readFieldsFuel fuel data = some (fields, rest)) :
    ∀ field ∈ fields, IsFieldValue field.value := by
  induction fuel generalizing data fields with
  | zero => exact absurd h (by simp [readFieldsFuel])
  | succ fuel ih =>
    obtain ⟨⟨line, after⟩, -, h⟩ := Option.bind_eq_some_iff.1 h
    simp only at h
    split at h
    · obtain ⟨rfl, -⟩ := Prod.mk.inj (Option.some.inj h)
      simp
    · obtain ⟨field, hfield, h⟩ := Option.bind_eq_some_iff.1 h
      obtain ⟨⟨others, behind⟩, hothers, h⟩ := Option.bind_eq_some_iff.1 h
      obtain ⟨rfl, rfl⟩ := Prod.mk.inj (Option.some.inj h)
      exact forall_mem_cons.2 ⟨isFieldValue_of_readField hfield, ih hothers⟩

/-- What is accepted as a request has a token for its method, a target and field values without
bytes that do not belong there. -/
theorem printable_of_readRequest {request : Request} (h : readRequest data = some (request, rest)) :
    IsToken request.method ∧
      IsOriginForm request.target ∧ ∀ field ∈ request.fields, IsFieldValue field.value := by
  obtain ⟨⟨line, afterLine⟩, -, h⟩ := Option.bind_eq_some_iff.1 h
  obtain ⟨⟨method, target⟩, hline, h⟩ := Option.bind_eq_some_iff.1 h
  obtain ⟨⟨fields, afterFields⟩, hfields, h⟩ := Option.bind_eq_some_iff.1 h
  obtain ⟨⟨body, behind⟩, -, h⟩ := Option.bind_eq_some_iff.1 h
  obtain ⟨rfl, -⟩ := Prod.mk.inj (Option.some.inj h)
  obtain ⟨⟨first, afterFirst⟩, -, hline⟩ := Option.bind_eq_some_iff.1 hline
  obtain ⟨⟨second, afterSecond⟩, -, hline⟩ := Option.bind_eq_some_iff.1 hline
  simp only at hline
  split at hline
  next hprintable =>
    obtain ⟨rfl, rfl⟩ := Prod.mk.inj (Option.some.inj hline)
    exact ⟨hprintable.1, hprintable.2.1, isFieldValue_of_readFieldsFuel hfields⟩
  · exact absurd hline (by simp)

end Http1

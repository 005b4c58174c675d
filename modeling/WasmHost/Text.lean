import WasmHost.Lib.SplitOnce
import WasmHost.Lib.Utf8
import WasmHost.Path

/-!
# Texts and numbers as bytes

How the hosts put texts and numbers on the wire and take them back: UTF-8, numbers in
little-endian order, and the first place at which a text is cut in two.
-/

namespace WasmHost

open List

/-- The characters of a text are gone through, not all the characters there are. -/
instance decidableForallChar {p : Char → Prop} [DecidablePred p] (t : Text) :
    Decidable (∀ c ∈ t, p c) := List.decidableBAll p t

/-- The bytes of a number in little-endian order. -/
def littleEndian (size value : ℕ) : Bytes :=
  (List.range size).map fun i => UInt8.ofNat (value / 2 ^ (8 * i))

/-- The number whose little-endian order the bytes are. -/
def ofLittleEndian (bytes : Bytes) : ℕ := bytes.foldr (fun b n => b.toNat + 256 * n) 0

def encodeText (t : Text) : Bytes := (String.ofList t).toUTF8.data.toList

/-- The text whose UTF-8 form the bytes are, if they are one. -/
def decodeText (b : Bytes) : Option Text := (ByteArray.mk b.toArray).utf8Decode?.map Array.toList

/-- The text before and the text behind the last `sep`. -/
def rsplitOnce (sep : Char) (t : Text) : Option (Text × Text) :=
  (splitOnce sep t.reverse).map fun (right, left) => (left.reverse, right.reverse)

/-- The text up to the first `sep`, or all of it. -/
def cutAt (sep : Char) (t : Text) : Text := ((splitOnce sep t).map Prod.fst).getD t

/-- `strip_prefix`. -/
def stripPrefix (start text : Text) : Option Text :=
  if start <+: text then some (text.drop start.length) else none

/-- The characters with the `White_Space` property. -/
def isWhitespace (c : Char) : Bool :=
  (9 ≤ c.toNat ∧ c.toNat ≤ 13) ∨ (0x2000 ≤ c.toNat ∧ c.toNat ≤ 0x200A) ∨
    c.toNat ∈ [0x20, 0x85, 0xA0, 0x1680, 0x2028, 0x2029, 0x202F, 0x205F, 0x3000]

/-- `str::trim`. -/
def strTrim (t : Text) : Text := (t.dropWhile isWhitespace).rdropWhile isWhitespace

/-- A text that has been trimmed and found not to be empty. -/
def TrimmedText := { t : Text // trim t = t ∧ t ≠ [] }

/-- Trimmed texts are compared as texts. -/
instance : DecidableEq TrimmedText := inferInstanceAs (DecidableEq (Subtype _))

/-- The text without the blanks around it, unless nothing is left. -/
def TrimmedText.ofText? (t : Text) : Option TrimmedText :=
  if h : trim t = [] then none else some ⟨trim t, trim_trim t, h⟩

def toAsciiLowercase (t : Text) : Text := t.map Char.toLower

def toAsciiUppercase (t : Text) : Text := t.map Char.toUpper

@[simp]
theorem length_littleEndian (size value : ℕ) : (littleEndian size value).length = size := by
  simp [littleEndian]

theorem littleEndian_succ (size value : ℕ) : littleEndian (size + 1) value =
    UInt8.ofNat value :: littleEndian size (value / 256) := by
  unfold littleEndian
  rw [range_succ_eq_map, map_cons, map_map]
  congr 1
  · simp
  · refine map_congr_left fun i _ => ?_
    show UInt8.ofNat (value / 2 ^ (8 * (i + 1))) = UInt8.ofNat (value / 256 / 2 ^ (8 * i))
    rw [Nat.div_div_eq_div_mul, show 8 * (i + 1) = 8 + 8 * i by omega, Nat.pow_add]

/-- Reading back what was written loses what did not fit. -/
theorem ofLittleEndian_littleEndian (size value : ℕ) :
    ofLittleEndian (littleEndian size value) = value % 256 ^ size := by
  induction size generalizing value with
  | zero => simp [littleEndian, ofLittleEndian, Nat.mod_one]
  | succ size ih =>
    rw [littleEndian_succ]
    show (UInt8.ofNat value).toNat + 256 * ofLittleEndian (littleEndian size (value / 256)) = _
    rw [ih, Nat.pow_succ, Nat.mul_comm (256 ^ size) 256, Nat.mod_mul]
    simp

theorem ofLittleEndian_lt (bytes : Bytes) : ofLittleEndian bytes < 256 ^ bytes.length := by
  induction bytes with
  | nil => simp [ofLittleEndian]
  | cons b rest ih =>
    have hb : b.toNat < 256 := b.toNat_lt
    show b.toNat + 256 * ofLittleEndian rest < 256 ^ (rest.length + 1)
    rw [Nat.pow_succ]
    omega

/-- Bytes are the little-endian order of the number read from them. -/
theorem littleEndian_ofLittleEndian (bytes : Bytes) :
    littleEndian bytes.length (ofLittleEndian bytes) = bytes := by
  induction bytes with
  | nil => rfl
  | cons b rest ih =>
    have hdiv : ofLittleEndian (b :: rest) / 256 = ofLittleEndian rest := by
      show (b.toNat + 256 * ofLittleEndian rest) / 256 = _
      have hb := b.toNat_lt
      omega
    have hhead : UInt8.ofNat (ofLittleEndian (b :: rest)) = b := by
      show UInt8.ofNat (b.toNat + 256 * ofLittleEndian rest) = b
      apply UInt8.toNat.inj
      rw [UInt8.toNat_ofNat', Nat.add_mul_mod_self_left]
      exact Nat.mod_eq_of_lt b.toNat_lt
    rw [length_cons, littleEndian_succ, hdiv, ih, hhead]

variable (t : Text) {c : Char} {b : UInt8}

@[simp]
theorem decodeText_encodeText : decodeText (encodeText t) = some t := by
  have hbytes : ByteArray.mk (encodeText t).toArray = t.utf8Encode := by simp [encodeText]
  rw [decodeText, hbytes, List.utf8Decode?_utf8Encode]
  rfl

/-- What is decoded is the UTF-8 form of the result. -/
theorem encodeText_of_decodeText {b : Bytes} {t : Text} (h : decodeText b = some t) :
    encodeText t = b := by
  obtain ⟨chars, hchars, rfl⟩ := Option.map_eq_some_iff.1 h
  have hvalid : (ByteArray.mk b.toArray).utf8Decode?.isSome := by rw [hchars]; rfl
  obtain ⟨text, htext⟩ := ByteArray.isSome_utf8Decode?_iff.1 hvalid
  rw [htext, List.utf8Decode?_utf8Encode] at hchars
  obtain rfl := Option.some.inj hchars
  show (String.ofList text).toUTF8.data.toList = b
  simp [← htext]

theorem stripPrefix_eq_some_iff {start text rest : Text} :
    stripPrefix start text = some rest ↔ text = start ++ rest := by
  unfold stripPrefix
  split
  next h =>
    obtain ⟨r, rfl⟩ := h
    simp [eq_comm]
  next h =>
    simp only [reduceCtorEq, false_iff]
    rintro rfl
    exact h (prefix_append _ _)

/-! ### Characters and bytes -/

theorem encodeText_eq : encodeText t = t.flatMap String.utf8EncodeChar := by
  simp [encodeText, List.utf8Encode]

theorem encodeText_eq_encode : encodeText t = Utf8.encode t := encodeText_eq t

@[simp]
theorem utf8Decode_encodeText : Utf8.decode (encodeText t) = t := by
  rw [encodeText_eq_encode, Utf8.decode_encode]

theorem encodeText_append (s t : Text) : encodeText (s ++ t) = encodeText s ++ encodeText t := by
  simp only [encodeText_eq, flatMap_append]

theorem encodeText_cons (c : Char) (t : Text) :
    encodeText (c :: t) = String.utf8EncodeChar c ++ encodeText t := by
  simp only [encodeText_eq, flatMap_cons]

theorem encodeText_injective {t u : Text} (h : encodeText t = encodeText u) : t = u := by
  unfold encodeText at h
  have hbytes : (String.ofList t).toByteArray = (String.ofList u).toByteArray :=
    ByteArray.ext (Array.toList_inj.1 h)
  exact String.ofList_injective (String.toByteArray_inj.1 hbytes)

/-- An ASCII character is one byte. -/
theorem utf8EncodeChar_of_lt (h : c.toNat < 128) :
    String.utf8EncodeChar c = [UInt8.ofNat c.toNat] := by
  unfold String.utf8EncodeChar
  have hv : c.val.toNat ≤ 127 := Nat.le_of_lt_succ h
  simp only [hv, if_true]
  rfl

/-- The bytes of any other character are outside ASCII. -/
theorem le_of_mem_utf8EncodeChar (h : 128 ≤ c.toNat) (hb : b ∈ String.utf8EncodeChar c) :
    128 ≤ b.toNat := by
  unfold String.utf8EncodeChar at hb
  have hv : ¬c.val.toNat ≤ 127 := Nat.not_le.2 h
  simp only [hv, if_false] at hb
  split at hb
  · simp only [mem_cons, not_mem_nil, or_false] at hb
    rcases hb with rfl | rfl <;> simp <;> omega
  · split at hb
    · simp only [mem_cons, not_mem_nil, or_false] at hb
      rcases hb with rfl | rfl | rfl <;> simp <;> omega
    · simp only [mem_cons, not_mem_nil, or_false] at hb
      rcases hb with rfl | rfl | rfl | rfl <;> simp <;> omega

theorem mem_encodeText_iff {t : Text} (hb : b.toNat < 128) :
    b ∈ encodeText t ↔ Char.ofNat b.toNat ∈ t := by
  have hchar : (Char.ofNat b.toNat).toNat = b.toNat := by
    have hvalid : b.toNat.isValidChar := .inl (by omega)
    rw [Char.ofNat, dif_pos hvalid]
    rfl
  rw [encodeText_eq, mem_flatMap]
  constructor
  · rintro ⟨c, hc, hmem⟩
    by_cases hascii : c.toNat < 128
    · rw [utf8EncodeChar_of_lt hascii, mem_singleton] at hmem
      rw [hmem]
      simpa [Nat.mod_eq_of_lt (show c.toNat < 256 by omega)] using hc
    · have := le_of_mem_utf8EncodeChar (Nat.not_lt.1 hascii) hmem
      omega
  · intro hmem
    refine ⟨_, hmem, ?_⟩
    rw [utf8EncodeChar_of_lt (by omega), hchar]
    simp

end WasmHost

import WasmHost.Http.RequestWriter
import WasmHost.Http.ResponseReader

/-!
# Chunk sizes

Which lines `parse_native_http_chunk_size` takes for the size of a chunk, next to the grammar of the
chunked coding: hexadecimal digits, and behind them an extension with blanks in front of it.
-/

namespace WasmHost

open List

/-! ### Hexadecimal texts -/

/-- The number that a text of hexadecimal digits stands for. -/
def hexNumber (digits : Text) : Option ℕ := Http1.readNumber 16 (encodeText digits)

variable {c sep : Char} (t : Text) {n : ℕ} {behind digits front text : Text}

theorem toDigit_of_lt (h : c.toNat < 128) :
    toDigit 16 c = (Http1.digitOf (UInt8.ofNat c.toNat)).filter (· < 16) :=
  ascii_forall (Q := fun c => toDigit 16 c = (Http1.digitOf (UInt8.ofNat c.toNat)).filter (· < 16))
    (by decide) h

theorem toDigit_of_le (h : 128 ≤ c.toNat) : toDigit 16 c = none := by
  have hnot (low high : Char) (hhigh : high.toNat < 128) : ¬(low ≤ c ∧ c ≤ high) := by
    rintro ⟨-, hle⟩
    have hle' : c.toNat ≤ high.toNat := hle
    omega
  rw [toDigit, if_neg (hnot _ _ (by decide)), if_neg (hnot _ _ (by decide)),
    if_neg (hnot _ _ (by decide))]
  rfl

theorem digitOf_of_le {b : UInt8} (h : 128 ≤ b.toNat) : Http1.digitOf b = none := by
  have hnot (low high : UInt8) (hhigh : high.toNat < 128) : ¬(low ≤ b ∧ b ≤ high) := by
    rintro ⟨-, hle⟩
    have hle' : b.toNat ≤ high.toNat := UInt8.le_iff_toNat_le.1 hle
    omega
  rw [Http1.digitOf, Http1.isDigit, if_neg (by simpa using hnot 48 57 (by decide)),
    if_neg (hnot _ _ (by decide)), if_neg (hnot _ _ (by decide))]

/-- The digits of a text are those of its bytes. -/
theorem mapM_toDigit :
    t.mapM (toDigit 16) =
      (encodeText t).mapM fun b => (Http1.digitOf b).filter (· < 16) := by
  induction t with
  | nil => rfl
  | cons c t ih =>
    rw [encodeText_cons, mapM_cons, mapM_append, ih]
    by_cases hc : c.toNat < 128
    · rw [utf8EncodeChar_of_lt hc, toDigit_of_lt hc, mapM_cons, mapM_nil]
      cases (Http1.digitOf (UInt8.ofNat c.toNat)).filter (· < 16) <;> rfl
    · -- the first byte of a character that is not ASCII is no digit
      have hc' := Nat.not_lt.1 hc
      rw [toDigit_of_le hc']
      cases hbytes : String.utf8EncodeChar c with
      | nil => exact absurd hbytes String.utf8EncodeChar_ne_nil
      | cons b rest =>
        have hb : 128 ≤ b.toNat := le_of_mem_utf8EncodeChar hc' (by rw [hbytes]; simp)
        rw [mapM_cons, digitOf_of_le hb]
        rfl

theorem hexNumber_eq :
    hexNumber t = if t = [] then none
      else (t.mapM (toDigit 16)).map
        (List.foldl (fun value digit => value * 16 + digit) 0) := by
  have hnil : encodeText t = [] ↔ t = [] := by
    rw [encodeText_eq_encode, Utf8.encode_eq_nil_iff]
  rw [hexNumber, Http1.readNumber, if_congr hnil rfl rfl, mapM_toDigit]

/-- A hexadecimal text has digits, and no other characters. -/
theorem digits_of_hexNumber {t : Text} (h : hexNumber t = some n) :
    t ≠ [] ∧ ∀ c ∈ t, (toDigit 16 c).isSome := by
  rw [hexNumber_eq] at h
  split_ifs at h with hempty
  obtain ⟨digits, hdigits, -⟩ := Option.map_eq_some_iff.1 h
  exact ⟨hempty, Http1.isSome_of_mapM hdigits⟩

/-- What a digit is not. -/
theorem not_of_isSome_toDigit (h : (toDigit 16 c).isSome) :
    isWhitespace c = false ∧ c ≠ '+' ∧ c ≠ ';' := by
  have hc : c.toNat < 128 := by
    by_contra hle
    rw [toDigit_of_le (Nat.not_lt.1 hle)] at h
    cases h
  exact ascii_forall (Q := fun c => (toDigit 16 c).isSome →
    isWhitespace c = false ∧ c ≠ '+' ∧ c ≠ ';') (by decide) hc h

/-- A sign may stand in front. -/
theorem fromStrRadix_eq_some_iff {t : Text} :
    fromStrRadix 16 (2 ^ 64) t = some n ↔
      ∃ sign digits, t = sign ++ digits ∧ (sign = [] ∨ sign = ['+']) ∧
        hexNumber digits = some n ∧ n < 2 ^ 64 := by
  have hplain (digits : Text) :
      (if digits = [] then none
        else ((digits.mapM (toDigit 16)).map
          (List.foldl (fun value digit => value * 16 + digit) 0)).filter (· < 2 ^ 64)) = some n ↔
        hexNumber digits = some n ∧ n < 2 ^ 64 := by
    rw [hexNumber_eq]
    split_ifs
    · simp
    · rw [Option.filter_eq_some_iff, decide_eq_true_eq]
  unfold fromStrRadix
  split
  next c rest =>
    rw [hplain]
    constructor
    · rintro ⟨hnumber, hlt⟩
      exact ⟨['+'], c :: rest, rfl, .inr rfl, hnumber, hlt⟩
    · rintro ⟨sign, digits, heq, rfl | rfl, hnumber, hlt⟩
      · -- the sign is no digit
        have hplus := (digits_of_hexNumber hnumber).2 '+' (by
          rw [← nil_append digits, ← heq]
          exact mem_cons_self)
        exact absurd rfl (not_of_isSome_toDigit hplus).2.1
      · obtain rfl : c :: rest = digits := tail_eq_of_cons_eq heq
        exact ⟨hnumber, hlt⟩
  next hother =>
    rw [hplain]
    constructor
    · rintro ⟨hnumber, hlt⟩
      exact ⟨[], t, rfl, .inl rfl, hnumber, hlt⟩
    · rintro ⟨sign, digits, rfl, rfl | rfl, hnumber, hlt⟩
      · exact ⟨hnumber, hlt⟩
      · cases digits with
        | nil => exact absurd rfl (digits_of_hexNumber hnumber).1
        | cons c rest => exact absurd rfl (hother c rest)

/-! ### What is in a size line -/

theorem cutAt_of_not_mem {t : Text} (h : sep ∉ t) : cutAt sep t = t := by
  rw [cutAt, splitOnce_eq_none_iff.2 h]
  rfl

theorem cutAt_append_cons {left : Text} (h : sep ∉ left) (right : Text) :
    cutAt sep (left ++ sep :: right) = left := by
  rw [cutAt, splitOnce_append h]
  rfl

/-- The text up to the extension: white space, a sign, the digits and white space again. -/
structure SizeText (text front sign digits behind : Text) (n : ℕ) : Prop where
  cut : cutAt ';' text = front ++ (sign ++ (digits ++ behind))
  front : ∀ c ∈ front, isWhitespace c = true
  behind : ∀ c ∈ behind, isWhitespace c = true
  sign : sign = [] ∨ sign = ['+']
  number : hexNumber digits = some n
  lt : n < 2 ^ 64

theorem exists_strTrim : ∃ front behind, t = front ++ (strTrim t ++ behind) ∧
    (∀ c ∈ front, isWhitespace c = true) ∧ ∀ c ∈ behind, isWhitespace c = true := by
  refine ⟨t.takeWhile isWhitespace, (t.dropWhile isWhitespace).rtakeWhile isWhitespace, ?_,
    fun c => mem_takeWhile_imp, fun c => mem_rtakeWhile_imp⟩
  rw [strTrim, rdropWhile_append_rtakeWhile, takeWhile_append_dropWhile]

theorem strTrim_append {middle : Text} (hfront : ∀ c ∈ front, isWhitespace c = true)
    (hbehind : ∀ c ∈ behind, isWhitespace c = true) (hne : middle ≠ [])
    (hmiddle : ∀ c ∈ middle, isWhitespace c = false) :
    strTrim (front ++ (middle ++ behind)) = middle := by
  have hstart : (middle ++ behind).dropWhile isWhitespace = middle ++ behind := by
    obtain ⟨c, rest, rfl⟩ := exists_cons_of_ne_nil hne
    rw [cons_append, dropWhile_cons_of_neg]
    simp [hmiddle c mem_cons_self]
  rw [strTrim, dropWhile_append_of_pos hfront, hstart, List.rdropWhile,
    reverse_append, dropWhile_append_of_pos fun c hc => hbehind c (mem_reverse.1 hc),
    ← List.rdropWhile, rdropWhile_eq_self_iff]
  intro hne'
  simp [hmiddle _ (getLast_mem hne')]

/-- A line is taken for a size exactly where its text is spelled so. -/
theorem parseNativeHttpChunkSize_eq_ok_iff {line : Bytes} :
    parseNativeHttpChunkSize line = .ok n ↔
      ∃ text front sign digits behind, decodeText line = some text ∧
        SizeText text front sign digits behind n := by
  unfold parseNativeHttpChunkSize
  cases hdecode : decodeText line with
  | none => simp
  | some text =>
    dsimp only
    constructor
    · intro h
      split_ifs at h with hempty
      split at h
      next m hnumber =>
        obtain rfl := Except.ok.inj h
        obtain ⟨front, behind, hcut, hfront, hbehind⟩ := exists_strTrim (cutAt ';' text)
        obtain ⟨sign, digits, hsize, hsign, hnumber, hlt⟩ := fromStrRadix_eq_some_iff.1 hnumber
        rw [hsize, append_assoc] at hcut
        exact ⟨text, front, sign, digits, behind, rfl, hcut, hfront, hbehind, hsign, hnumber, hlt⟩
      · cases h
    · rintro ⟨text', front, sign, digits, behind, htext, h⟩
      obtain rfl := Option.some.inj htext
      obtain ⟨hne, hdigits⟩ := digits_of_hexNumber h.number
      have htrim : strTrim (cutAt ';' text) = sign ++ digits := by
        rw [h.cut, ← append_assoc sign]
        refine strTrim_append h.front h.behind (by simp [hne]) fun c hc => ?_
        rcases mem_append.1 hc with hc | hc
        · rcases h.sign with rfl | rfl
          · cases hc
          · obtain rfl := mem_singleton.1 hc
            decide
        · exact (not_of_isSome_toDigit (hdigits c hc)).1
      have hparse := fromStrRadix_eq_some_iff.2 ⟨sign, digits, rfl, h.sign, h.number, h.lt⟩
      rw [htrim, if_neg (by simp [hne]), hparse]

/-- The size that the writer prints. -/
theorem parseNativeHttpChunkSize_print (h : n < 2 ^ 64) :
    parseNativeHttpChunkSize (Http1.printNumber 16 n) = .ok n := by
  have hnumber : hexNumber (lowerHex n) = some n := by
    rw [hexNumber, encodeText_lowerHex, Http1.readNumber_print (by decide) (by decide)]
  have hnot : ';' ∉ lowerHex n := fun hmem =>
    (not_of_isSome_toDigit ((digits_of_hexNumber hnumber).2 _ hmem)).2.2 rfl
  refine parseNativeHttpChunkSize_eq_ok_iff.2 ⟨lowerHex n, [], [], lowerHex n, [], ?_, ?_⟩
  · rw [← encodeText_lowerHex, decodeText_encodeText]
  · exact
      { cut := by rw [cutAt_of_not_mem hnot]; simp
        front := fun c hc => by cases hc
        behind := fun c hc => by cases hc
        sign := .inl rfl
        number := hnumber
        lt := h }

/-! ### The grammar -/

/-- A blank of the grammar. -/
def IsBlank (c : Char) : Prop := c = ' ' ∨ c = '\t'

/-- The grammar: the digits, and nothing behind them but an extension and the blanks in front of
it. -/
def GrammaticalSize (line : Bytes) (n : ℕ) : Prop :=
  ∃ digits, hexNumber digits = some n ∧ (line = encodeText digits ∨
    ∃ blanks extension, (∀ c ∈ blanks, IsBlank c) ∧
      line = encodeText (digits ++ (blanks ++ ';' :: extension)))

/-- A spelling of a size that the grammar does not have: with white space or a sign in front, or
with white space behind that is no blank or not followed by an extension. -/
def LaxSize (line : Bytes) : Prop :=
  ∃ text front sign digits behind n, decodeText line = some text ∧
    SizeText text front sign digits behind n ∧
      (front ≠ [] ∨ sign ≠ [] ∨ (∃ c ∈ behind, ¬IsBlank c) ∨ behind ≠ [] ∧ ';' ∉ text)

/-- Digits and what follows them are told apart. -/
theorem digits_append_inj {digits' behind' : Text} (hdigits : ∀ c ∈ digits, (toDigit 16 c).isSome)
    (hdigits' : ∀ c ∈ digits', (toDigit 16 c).isSome)
    (hbehind : ∀ c ∈ behind, (toDigit 16 c).isSome = false)
    (hbehind' : ∀ c ∈ behind', (toDigit 16 c).isSome = false)
    (h : digits ++ behind = digits' ++ behind') : digits = digits' ∧ behind = behind' := by
  have htake {front tail : Text} (hfront : ∀ c ∈ front, (toDigit 16 c).isSome)
      (htail : ∀ c ∈ tail, (toDigit 16 c).isSome = false) :
      (front ++ tail).takeWhile (fun c => (toDigit 16 c).isSome) = front := by
    rw [takeWhile_append_of_pos hfront]
    cases tail with
    | nil => simp
    | cons c tail => rw [takeWhile_cons_of_neg (by simp [htail c]), append_nil]
  obtain rfl : digits = digits' := by
    rw [← htake hdigits hbehind, h, htake hdigits' hbehind']
  exact ⟨rfl, append_cancel_left h⟩

theorem not_isSome_of_isBlank (h : IsBlank c) : (toDigit 16 c).isSome = false := by
  rcases h with rfl | rfl <;> decide

theorem not_isSome_of_isWhitespace (h : isWhitespace c = true) : (toDigit 16 c).isSome = false := by
  by_contra hdigit
  rw [Bool.not_eq_false] at hdigit
  cases h.symm.trans (not_of_isSome_toDigit hdigit).1

/-- In a grammatical line the digits come first, and blanks follow only in front of an extension. -/
theorem SizeText.strict_of_grammatical {sign : Text} {m : ℕ}
    (h : SizeText text front sign digits behind n) (hg : GrammaticalSize (encodeText text) m) :
    front = [] ∧ sign = [] ∧ (∀ c ∈ behind, IsBlank c) ∧ (behind = [] ∨ ';' ∈ text) := by
  -- what the grammar has up to the extension
  obtain ⟨digits', blanks, hnumber, hblanks, hcut, hext⟩ : ∃ digits' blanks,
      hexNumber digits' = some m ∧ (∀ c ∈ blanks, IsBlank c) ∧
        cutAt ';' text = digits' ++ blanks ∧ (blanks = [] ∨ ';' ∈ text) := by
    obtain ⟨digits', hnumber, heq | ⟨blanks, extension, hblanks, heq⟩⟩ := hg
    · obtain rfl := encodeText_injective heq
      have hnot : ';' ∉ text := fun hmem =>
        (not_of_isSome_toDigit ((digits_of_hexNumber hnumber).2 _ hmem)).2.2 rfl
      refine ⟨text, [], hnumber, (fun c hc => by cases hc), ?_, .inl rfl⟩
      rw [cutAt_of_not_mem hnot, append_nil]
    · obtain rfl := encodeText_injective heq
      refine ⟨digits', blanks, hnumber, hblanks, ?_, .inr (by simp)⟩
      rw [← append_assoc]
      refine cutAt_append_cons (fun hmem => ?_) extension
      rcases mem_append.1 hmem with hmem | hmem
      · exact (not_of_isSome_toDigit ((digits_of_hexNumber hnumber).2 _ hmem)).2.2 rfl
      · rcases hblanks _ hmem with hc | hc <;> cases hc
  obtain ⟨hne', hdigits'⟩ := digits_of_hexNumber hnumber
  obtain ⟨hne, hdigits⟩ := digits_of_hexNumber h.number
  obtain ⟨c, rest, rfl⟩ := exists_cons_of_ne_nil hne'
  have hc := not_of_isSome_toDigit (hdigits' c mem_cons_self)
  have heq := h.cut.symm.trans hcut
  obtain rfl : front = [] := by
    cases hfront : front with
    | nil => rfl
    | cons d more =>
      rw [hfront, cons_append, cons_append, List.cons.injEq] at heq
      have hd := h.front d (by rw [hfront]; exact mem_cons_self)
      rw [heq.1, hc.1] at hd
      cases hd
  obtain rfl : sign = [] := by
    rcases h.sign with hsign | hsign
    · exact hsign
    · rw [hsign, nil_append, cons_append, cons_append, List.cons.injEq] at heq
      exact absurd heq.1.symm hc.2.1
  obtain ⟨-, rfl⟩ := digits_append_inj hdigits hdigits'
    (fun d hd => not_isSome_of_isWhitespace (h.behind d hd))
    (fun d hd => not_isSome_of_isBlank (hblanks d hd)) heq
  exact ⟨rfl, rfl, hblanks, hext⟩

/-- A line whose text is spelled strictly is grammatical. -/
theorem SizeText.grammatical (h : SizeText text [] [] digits behind n)
    (hblanks : ∀ c ∈ behind, IsBlank c) (hext : behind = [] ∨ ';' ∈ text) :
    GrammaticalSize (encodeText text) n := by
  refine ⟨digits, h.number, ?_⟩
  have hcut := h.cut
  rw [nil_append, nil_append] at hcut
  by_cases hmem : ';' ∈ text
  · obtain ⟨left, right, rfl, hleft⟩ := eq_append_cons_of_mem hmem
    rw [cutAt_append_cons hleft] at hcut
    refine .inr ⟨behind, right, hblanks, ?_⟩
    rw [hcut, append_assoc]
  · obtain rfl := hext.resolve_right hmem
    rw [cutAt_of_not_mem hmem, append_nil] at hcut
    exact .inl (by rw [hcut])

/-- **Only grammatical sizes are taken** from a line that has none of the lax spellings, and from
no other line. -/
theorem grammatical_iff_not_lax (line : Bytes) :
    (∀ n, parseNativeHttpChunkSize line = .ok n → GrammaticalSize line n) ↔ ¬LaxSize line := by
  constructor
  · rintro h ⟨text, front, sign, digits, behind, n, hdecode, hsize, hlax⟩
    have hg := h n (parseNativeHttpChunkSize_eq_ok_iff.2
      ⟨text, front, sign, digits, behind, hdecode, hsize⟩)
    rw [← encodeText_of_decodeText hdecode] at hg
    obtain ⟨hfront, hsign, hblanks, hext⟩ := hsize.strict_of_grammatical hg
    rcases hlax with hlax | hlax | ⟨c, hc, hlax⟩ | ⟨hne, hnot⟩
    · exact hlax hfront
    · exact hlax hsign
    · exact hlax (hblanks c hc)
    · exact hext.elim hne hnot
  · intro hstrict n hparse
    obtain ⟨text, front, sign, digits, behind, hdecode, hsize⟩ :=
      parseNativeHttpChunkSize_eq_ok_iff.1 hparse
    have hnot : ¬(front ≠ [] ∨ sign ≠ [] ∨ (∃ c ∈ behind, ¬IsBlank c) ∨
        behind ≠ [] ∧ ';' ∉ text) := fun hlax =>
      hstrict ⟨text, front, sign, digits, behind, n, hdecode, hsize, hlax⟩
    push Not at hnot
    obtain ⟨rfl, rfl, hblanks, hext⟩ := hnot
    rw [← encodeText_of_decodeText hdecode]
    exact hsize.grammatical hblanks (or_iff_not_imp_left.2 hext)

end WasmHost

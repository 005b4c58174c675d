import Mathlib.Data.List.DropRight
import Mathlib.Tactic.Common

/-!
# Base64

The standard alphabet with padding. A text is valid when its length is a multiple of four and it is
made of characters of the alphabet with at most two `=` behind them. `Base64.decode` takes valid
texts only and drops the bits of the last character that belong to no byte. Two more decoders take
texts that are not valid: `Base64.forgivingDecode` leaves out white space and asks for no padding,
and `Base64.lenientDecode` leaves out whatever is not in the alphabet.

* `Base64.forgivingDecode_encode`, `Base64.lenientDecode_encode`: both undo the encoder.
-/

namespace Base64

open List

/-- The six bits of a character. -/
def sextet? (c : Char) : Option ℕ :=
  if 'A' ≤ c ∧ c ≤ 'Z' then some (c.toNat - 65)
  else if 'a' ≤ c ∧ c ≤ 'z' then some (c.toNat - 71)
  else if '0' ≤ c ∧ c ≤ '9' then some (c.toNat + 4)
  else if c = '+' then some 62
  else if c = '/' then some 63
  else none

variable (t : List Char)

/-- The characters in front of the padding. -/
def digits : List Char := t.rdropWhile (· = '=')

/-- The text is base 64 with its padding. -/
def IsValid : Prop :=
  t.length % 4 = 0 ∧ (∀ c ∈ digits t, (sextet? c).isSome = true) ∧
    t.length ≤ (digits t).length + 2

/-- Valid texts can be recognised. -/
instance (t : List Char) : Decidable (IsValid t) := inferInstanceAs (Decidable (_ ∧ _))

/-- The bytes of a list of sextets. -/
def bytesOf : List ℕ → List UInt8
  | a :: b :: c :: d :: rest =>
    .ofNat (a * 4 + b / 16) :: .ofNat (b % 16 * 16 + c / 4) :: .ofNat (c % 4 * 64 + d) ::
      bytesOf rest
  | [a, b, c] => [.ofNat (a * 4 + b / 16), .ofNat (b % 16 * 16 + c / 4)]
  | [a, b] => [.ofNat (a * 4 + b / 16)]
  | _ => []

def sextets : List ℕ := (digits t).filterMap sextet?

/-- A decoder that drops the bits left over. -/
def decode : Option (List UInt8) :=
  if IsValid t then some (bytesOf (sextets t)) else none

/-! ### Encoding -/

/-- The character of six bits. -/
def sextetChar (n : ℕ) : Char :=
  if n < 26 then Char.ofNat (n + 65)
  else if n < 52 then Char.ofNat (n + 71)
  else if n < 62 then Char.ofNat (n - 4)
  else if n = 62 then '+'
  else '/'

/-- The sextets of a list of bytes. -/
def sextetsOf : List UInt8 → List ℕ
  | x :: y :: z :: rest =>
    x.toNat / 4 :: (x.toNat % 4 * 16 + y.toNat / 16) :: (y.toNat % 16 * 4 + z.toNat / 64) ::
      z.toNat % 64 :: sextetsOf rest
  | [x, y] => [x.toNat / 4, x.toNat % 4 * 16 + y.toNat / 16, y.toNat % 16 * 4]
  | [x] => [x.toNat / 4, x.toNat % 4 * 16]
  | [] => []

/-- The text of a list of bytes, with padding. -/
def encode (bytes : List UInt8) : List Char :=
  (sextetsOf bytes).map sextetChar ++ List.replicate ((3 - bytes.length % 3) % 3) '='

/-! ### Decoding what may be no valid text -/

/-- The white space of ASCII. -/
def isAsciiSpace (c : Char) : Bool := c ∈ ['\t', '\n', '\x0c', '\r', ' ']

/-- The text without one or two `=` at its end. -/
def dropPadding : List Char :=
  if t.getLast? = some '=' then
    if t.dropLast.getLast? = some '=' then t.dropLast.dropLast else t.dropLast
  else t

/-- The decoder of `atob`. -/
def forgivingDecode : Option (List UInt8) :=
  let data := t.filter fun c => !isAsciiSpace c
  let data := if data.length % 4 = 0 then dropPadding data else data
  if data.length % 4 = 1 ∨ (data.any fun c => (sextet? c).isNone) = true then none
  else some (bytesOf (data.filterMap sextet?))

/-- The six bits of a character of either alphabet. -/
def urlSextet? (c : Char) : Option ℕ :=
  if c = '-' then some 62 else if c = '_' then some 63 else sextet? c

/-- A decoder that stops at the padding and leaves out what is in neither alphabet. -/
def lenientDecode : List UInt8 :=
  bytesOf ((t.takeWhile (· ≠ '=')).filterMap urlSextet?)

/-! ### Decoding undoes encoding -/

variable (bytes : List UInt8) {n : ℕ}

theorem bytesOf_sextetsOf : bytesOf (sextetsOf bytes) = bytes := by
  have hbyte : ∀ (b : UInt8) (n : ℕ), n % 256 = b.toNat → UInt8.ofNat n = b := by
    intro b n h
    apply UInt8.toNat.inj
    rw [UInt8.toNat_ofNat', h]
  fun_induction sextetsOf bytes with
  | case1 x y z rest ih =>
    have hx := x.toNat_lt
    have hy := y.toNat_lt
    have hz := z.toNat_lt
    rw [bytesOf, ih, hbyte x _ (by omega), hbyte y _ (by omega), hbyte z _ (by omega)]
  | case2 x y =>
    have hx := x.toNat_lt
    have hy := y.toNat_lt
    rw [bytesOf, hbyte x _ (by omega), hbyte y _ (by omega)]
  | case3 x =>
    have hx := x.toNat_lt
    rw [bytesOf, hbyte x _ (by omega)]
  | case4 => rfl

theorem lt_of_mem_sextetsOf {bytes : List UInt8} (h : n ∈ sextetsOf bytes) : n < 64 := by
  fun_induction sextetsOf bytes with
  | case1 x y z rest ih =>
    have hx := x.toNat_lt
    have hy := y.toNat_lt
    have hz := z.toNat_lt
    simp only [mem_cons] at h
    rcases h with rfl | rfl | rfl | rfl | h
    · omega
    · omega
    · omega
    · omega
    · exact ih h
  | case2 x y =>
    have hx := x.toNat_lt
    have hy := y.toNat_lt
    simp only [mem_cons, not_mem_nil, or_false] at h
    omega
  | case3 x =>
    have hx := x.toNat_lt
    simp only [mem_cons, not_mem_nil, or_false] at h
    omega
  | case4 => cases h

/-- What a character of the alphabet is, and is not. -/
theorem sextetChar_spec : ∀ n < 64, sextet? (sextetChar n) = some n ∧
    urlSextet? (sextetChar n) = some n ∧ sextetChar n ≠ '=' ∧
    isAsciiSpace (sextetChar n) = false := by
  decide

/-- The characters of a text in front of its padding. -/
theorem filterMap_sextetChar {f : Char → Option ℕ} (hf : ∀ n < 64, f (sextetChar n) = some n)
    (bytes : List UInt8) : ((sextetsOf bytes).map sextetChar).filterMap f = sextetsOf bytes := by
  rw [filterMap_map]
  refine (filterMap_congr fun n hn => ?_).trans filterMap_some
  exact hf n (lt_of_mem_sextetsOf hn)

theorem length_encode : (encode bytes).length % 4 = 0 := by
  have hlength : (sextetsOf bytes).length = (4 * bytes.length + 2) / 3 := by
    fun_induction sextetsOf bytes with
    | case1 x y z rest ih =>
      simp only [length_cons, ih]
      omega
    | case2 | case3 => simp
    | case4 => rfl
  rw [encode, length_append, length_map, length_replicate, hlength]
  obtain h | h | h : bytes.length % 3 = 0 ∨ bytes.length % 3 = 1 ∨ bytes.length % 3 = 2 := by omega
  all_goals
    rw [h]
    omega

theorem dropPadding_append {t : List Char} (h : '=' ∉ t) (hn : n ≤ 2) :
    dropPadding (t ++ List.replicate n '=') = t := by
  have hlast : t.getLast? ≠ some '=' := fun hl => h (mem_of_getLast? hl)
  obtain rfl | rfl | rfl : n = 0 ∨ n = 1 ∨ n = 2 := by omega
  · simp [dropPadding, hlast]
  · simp [dropPadding, hlast]
  · have hdrop : (t ++ ['=', '=']).dropLast = t ++ ['='] := by
      rw [show t ++ ['=', '='] = (t ++ ['=']) ++ ['='] by simp, dropLast_concat]
    simp [dropPadding, replicate_succ, hdrop]

theorem not_mem_map_sextetChar : '=' ∉ (sextetsOf bytes).map sextetChar := by
  intro h
  obtain ⟨n, hn, heq⟩ := mem_map.1 h
  exact (sextetChar_spec n (lt_of_mem_sextetsOf hn)).2.2.1 heq

theorem forgivingDecode_encode : forgivingDecode (encode bytes) = some bytes := by
  have hspace : (encode bytes).filter (fun c => !isAsciiSpace c) = encode bytes := by
    refine filter_eq_self.2 fun c hc => ?_
    rcases mem_append.1 hc with h | h
    · obtain ⟨n, hn, rfl⟩ := mem_map.1 h
      rw [(sextetChar_spec n (lt_of_mem_sextetsOf hn)).2.2.2]
      rfl
    · rw [eq_of_mem_replicate h]
      rfl
  have hpadding : dropPadding (encode bytes) = (sextetsOf bytes).map sextetChar :=
    dropPadding_append (not_mem_map_sextetChar bytes) (by omega)
  have hrest : ((sextetsOf bytes).map sextetChar).length % 4 ≠ 1 := by
    have hlength := length_encode bytes
    rw [encode, length_append, length_replicate] at hlength
    omega
  have hall : ¬((sextetsOf bytes).map sextetChar).any (fun c => (sextet? c).isNone) = true := by
    rw [any_eq_true]
    rintro ⟨c, hc, hnone⟩
    obtain ⟨n, hn, rfl⟩ := mem_map.1 hc
    rw [(sextetChar_spec n (lt_of_mem_sextetsOf hn)).1] at hnone
    cases hnone
  rw [forgivingDecode, hspace]
  simp only [length_encode, if_true, hpadding]
  rw [if_neg (not_or.2 ⟨hrest, hall⟩)]
  rw [filterMap_sextetChar (fun n hn => (sextetChar_spec n hn).1), bytesOf_sextetsOf]

theorem lenientDecode_encode : lenientDecode (encode bytes) = bytes := by
  have hfront : (encode bytes).takeWhile (· ≠ '=') = (sextetsOf bytes).map sextetChar := by
    rw [encode, takeWhile_append_of_pos]
    · cases (3 - bytes.length % 3) % 3 <;> simp [replicate_succ]
    · intro c hc
      have hne : c ≠ '=' := fun h => not_mem_map_sextetChar bytes (h ▸ hc)
      simpa using hne
  rw [lenientDecode, hfront, filterMap_sextetChar (fun n hn => (sextetChar_spec n hn).2.1),
    bytesOf_sextetsOf]

end Base64

import Mathlib.Algebra.Order.Group.Nat
import Mathlib.Data.List.Induction
import Mathlib.Tactic.Common

/-!
# UTF-8 with replacement characters

The decoder of the Encoding Standard as a machine that takes one byte at a time: it holds the bytes
of an unfinished character, and puts a replacement character where they do not go on to be one.

* `Utf8.decode_encode`: decoding undoes encoding.
* `Utf8.decode_append`: bytes decode apart where the second part does not go on with a character.
* `Utf8.append_eq_encode`: a text in bytes can only be cut between or inside characters.
-/

namespace Utf8

open List

/-- The bytes of a text. -/
def encode (t : List Char) : List UInt8 := t.flatMap String.utf8EncodeChar

/-- U+FFFD. -/
def replacement : Char := '\uFFFD'

/-- The number of bytes of a character, by its first byte, or 0 where no character starts so. -/
def width (lead : UInt8) : ℕ :=
  if lead.toNat < 0x80 then 1
  else if 0xC2 ≤ lead.toNat ∧ lead.toNat ≤ 0xDF then 2
  else if 0xE0 ≤ lead.toNat ∧ lead.toNat ≤ 0xEF then 3
  else if 0xF0 ≤ lead.toNat ∧ lead.toNat ≤ 0xF4 then 4
  else 0

/-- The least second byte. -/
def lower (lead : UInt8) : ℕ :=
  if lead.toNat = 0xE0 then 0xA0 else if lead.toNat = 0xF0 then 0x90 else 0x80

/-- The greatest second byte. -/
def upper (lead : UInt8) : ℕ :=
  if lead.toNat = 0xED then 0x9F else if lead.toNat = 0xF4 then 0x8F else 0xBF

def Continuation (b : UInt8) : Prop := 0x80 ≤ b.toNat ∧ b.toNat ≤ 0xBF

/-- Continuation bytes can be recognised. -/
instance : DecidablePred Continuation := fun b =>
  inferInstanceAs (Decidable (0x80 ≤ b.toNat ∧ b.toNat ≤ 0xBF))

/-- The byte goes on with the unfinished character. -/
def Follows : List UInt8 → UInt8 → Prop
  | [], _ => False
  | [lead], b => lower lead ≤ b.toNat ∧ b.toNat ≤ upper lead
  | _ :: _ :: _, b => Continuation b

/-- The next byte can be checked. -/
instance : (pending : List UInt8) → (b : UInt8) → Decidable (Follows pending b)
  | [], _ => inferInstanceAs (Decidable False)
  | [lead], b => inferInstanceAs (Decidable (lower lead ≤ b.toNat ∧ b.toNat ≤ upper lead))
  | _ :: _ :: _, b => inferInstanceAs (Decidable (Continuation b))

/-- The number of a sequence. -/
def codePoint : List UInt8 → ℕ
  | [a] => a.toNat
  | [a, b] => a.toNat % 32 * 64 + b.toNat % 64
  | [a, b, c] => a.toNat % 16 * 4096 + b.toNat % 64 * 64 + c.toNat % 64
  | [a, b, c, d] =>
      a.toNat % 8 * 262144 + b.toNat % 64 * 4096 + c.toNat % 64 * 64 + d.toNat % 64
  | _ => 0

/-- What an unfinished character becomes. -/
def flush (pending : List UInt8) : List Char := if pending = [] then [] else [replacement]

/-- A byte between characters. -/
def start (b : UInt8) : List Char × List UInt8 :=
  if width b = 0 then ([replacement], [])
  else if width b = 1 then ([Char.ofNat (codePoint [b])], [])
  else ([], [b])

/-- The characters that a byte completes, and the bytes that are held after it. -/
def step (pending : List UInt8) (b : UInt8) : List Char × List UInt8 :=
  if Follows pending b then
    if pending.length + 1 = width (pending.headD 0) then
      ([Char.ofNat (codePoint (pending ++ [b]))], [])
    else ([], pending ++ [b])
  else (flush pending ++ (start b).1, (start b).2)

/-- Decodes bytes behind those pending. -/
def run : List UInt8 → List UInt8 → List Char × List UInt8
  | pending, [] => ([], pending)
  | pending, b :: bytes =>
      ((step pending b).1 ++ (run (step pending b).2 bytes).1, (run (step pending b).2 bytes).2)

/-- The text of the bytes. -/
def decode (bytes : List UInt8) : List Char := (run [] bytes).1 ++ flush (run [] bytes).2

/-- The text without a byte-order mark at its start. -/
def withoutBom : List Char → List Char
  | c :: t => if c = '\uFEFF' then t else c :: t
  | [] => []

/-- The text that a `TextDecoder` gives for all the bytes. -/
def textDecode (bytes : List UInt8) : List Char := withoutBom (decode bytes)

/-- The bytes of a text that does not start with a mark. -/
def Plain (bytes : List UInt8) : Prop := encode (textDecode bytes) = bytes

/-- Plain texts can be recognised. -/
instance : DecidablePred Plain := fun bytes =>
  inferInstanceAs (Decidable (encode (textDecode bytes) = bytes))

/-- A decoder that is given the bytes in parts: what it holds, and whether it is past the mark. -/
structure Decoder where
  pending : List UInt8
  started : Bool

namespace Decoder

def new : Decoder := ⟨[], false⟩

/-- `decode(bytes, { stream: true })`. -/
def push (d : Decoder) (bytes : List UInt8) : List Char × Decoder :=
  (if d.started = true then (run d.pending bytes).1 else withoutBom (run d.pending bytes).1,
    ⟨(run d.pending bytes).2, d.started || !(run d.pending bytes).1.isEmpty⟩)

/-- The last `decode()`. -/
def finish (d : Decoder) : List Char :=
  if d.started = true then flush d.pending else withoutBom (flush d.pending)

/-- The text of each part, and of the end. -/
def texts (d : Decoder) : List (List UInt8) → List (List Char)
  | [] => [d.finish]
  | bytes :: rest => (d.push bytes).1 :: (d.push bytes).2.texts rest

end Decoder

/-! ### Encoding -/

@[simp]
theorem encode_nil : encode [] = [] := rfl

theorem encode_cons (c : Char) (t : List Char) :
    encode (c :: t) = String.utf8EncodeChar c ++ encode t := rfl

@[simp]
theorem encode_append (s t : List Char) : encode (s ++ t) = encode s ++ encode t :=
  flatMap_append

variable {t : List Char} {pending a left right : List UInt8} {b : UInt8} {c : Char}

theorem encode_eq_nil_iff : encode t = [] ↔ t = [] := by
  cases t with
  | nil => simp
  | cons => simp [encode_cons, String.utf8EncodeChar_ne_nil]

theorem withoutBom_eq_self_iff : withoutBom t = t ↔ t.head? ≠ some '\uFEFF' := by
  cases t with
  | nil => simp [withoutBom]
  | cons =>
    unfold withoutBom
    split
    next hc => simp [hc]
    next hc => simp [hc]

/-! ### The machine -/

theorem run_append (pending a b : List UInt8) :
    run pending (a ++ b) = ((run pending a).1 ++ (run (run pending a).2 b).1,
      (run (run pending a).2 b).2) := by
  induction a generalizing pending with
  | nil => simp [run]
  | cons x a ih => simp only [cons_append, run, ih, append_assoc]

theorem run_concat (pending a : List UInt8) (b : UInt8) :
    run pending (a ++ [b]) = ((run pending a).1 ++ (step (run pending a).2 b).1,
      (step (run pending a).2 b).2) := by
  rw [run_append]
  simp only [run, append_nil]

/-- The texts of the parts are the text of all the bytes. -/
theorem Decoder.flatten_texts (d : Decoder) (parts : List (List UInt8)) :
    (d.texts parts).flatten =
      if d.started = true then
        (run d.pending parts.flatten).1 ++ flush (run d.pending parts.flatten).2
      else withoutBom
        ((run d.pending parts.flatten).1 ++ flush (run d.pending parts.flatten).2) := by
  induction parts generalizing d with
  | nil =>
    rw [texts, flatten_singleton]
    rfl
  | cons bytes parts ih =>
    rw [texts, flatten_cons, ih, flatten_cons, run_append]
    unfold push
    cases hstarted : d.started with
    | true => simp
    | false =>
      cases hrun : (run d.pending bytes).1 with
      | nil => simp [withoutBom]
      | cons c t =>
        by_cases hc : c = '\uFEFF' <;> simp [withoutBom, hc]

theorem Decoder.flatten_texts_new (parts : List (List UInt8)) :
    (Decoder.new.texts parts).flatten = textDecode parts.flatten := by
  rw [flatten_texts]
  rfl

theorem not_follows (hb : ¬Continuation b) : ¬Follows pending b := by
  match pending with
  | [] => exact id
  | [lead] =>
    intro hfollows
    apply hb
    obtain ⟨hlow, hhigh⟩ := hfollows
    have hlower : 0x80 ≤ lower lead := by unfold lower; split_ifs <;> omega
    have hupper : upper lead ≤ 0xBF := by unfold upper; split_ifs <;> omega
    exact ⟨hlower.trans hlow, hhigh.trans hupper⟩
  | _ :: _ :: _ => exact hb

/-- The byte is the last one of the character. -/
theorem step_of_last (hb : Follows pending b) (hlast : pending.length + 1 = width (pending.headD 0))
    : step pending b = ([Char.ofNat (codePoint (pending ++ [b]))], []) := by
  rw [step, if_pos hb, if_pos hlast]

theorem step_of_not_last (hb : Follows pending b)
    (hlast : pending.length + 1 ≠ width (pending.headD 0)) :
    step pending b = ([], pending ++ [b]) := by
  rw [step, if_pos hb, if_neg hlast]

theorem step_nil (b : UInt8) : step [] b = start b := by
  simp [step, Follows, flush]

/-- A byte that goes on with no character ends the unfinished one. -/
theorem step_of_not_continuation (hb : ¬Continuation b) (pending : List UInt8) :
    step pending b = (flush pending ++ (step [] b).1, (step [] b).2) := by
  rw [step_nil, step, if_neg (not_follows hb)]

theorem decode_append {b : List UInt8} (hb : ∀ x ∈ b.head?, ¬Continuation x) :
    decode (a ++ b) = decode a ++ decode b := by
  unfold decode
  rw [run_append]
  cases b with
  | nil =>
    show (run [] a).1 ++ [] ++ flush (run [] a).2 = (run [] a).1 ++ flush (run [] a).2 ++ []
    rw [append_nil, append_nil]
  | cons x b =>
    have hx := step_of_not_continuation (hb x rfl) (run [] a).2
    simp only [run, hx, append_assoc]

/-! ### Characters -/

/-- The lead byte and the continuation bytes of a character. -/
structure Spells (lead : UInt8) (rest : List UInt8) (c : Char) : Prop where
  encodes : String.utf8EncodeChar c = lead :: rest
  leads : ¬Continuation lead
  counts : width lead = rest.length + 1
  continues : ∀ b ∈ rest, Continuation b
  bounds : ∀ b ∈ rest.head?, lower lead ≤ b.toNat ∧ b.toNat ≤ upper lead
  means : Char.ofNat (codePoint (lead :: rest)) = c

theorem toNat_continuation (n : ℕ) : (UInt8.ofNat (n % 64 + 0x80)).toNat = n % 64 + 0x80 := by
  simp; omega

theorem continuation_ofNat (n : ℕ) : Continuation (UInt8.ofNat (n % 64 + 0x80)) := by
  rw [Continuation, toNat_continuation]
  omega

theorem spells_one (h : c.toNat < 0x80) : Spells (UInt8.ofNat c.toNat) [] c := by
  have hlead : (UInt8.ofNat c.toNat).toNat = c.toNat := by simp; omega
  constructor
  · have hv : c.val.toNat ≤ 127 := Nat.le_of_lt_succ h
    simp only [String.utf8EncodeChar, hv, if_true]
    rfl
  · simp only [Continuation, hlead]
    omega
  · simp only [width, hlead, h, if_true, length_nil]
  · simp
  · simp
  · simp only [codePoint, hlead, Char.ofNat_toNat]

theorem spells_two (h : 0x80 ≤ c.toNat) (h' : c.toNat < 0x800) :
    Spells (UInt8.ofNat (c.toNat / 64 + 0xC0)) [UInt8.ofNat (c.toNat % 64 + 0x80)] c := by
  have hlead : (UInt8.ofNat (c.toNat / 64 + 0xC0)).toNat = c.toNat / 64 + 0xC0 := by simp; omega
  constructor
  · have hv : ¬c.val.toNat ≤ 127 := Nat.not_le.2 h
    have hv' : c.val.toNat ≤ 2047 := Nat.le_of_lt_succ h'
    simp only [String.utf8EncodeChar, hv, hv', if_true, if_false]
    rw [Nat.mod_eq_of_lt (show c.val.toNat / 64 < 32 by omega)]
    rfl
  · simp only [Continuation, hlead]
    omega
  · simp only [width, hlead, length_singleton]
    split_ifs <;> omega
  · simp [-UInt8.ofNat_add, continuation_ofNat]
  · simp only [lower, upper, hlead, toNat_continuation, List.head?_cons, Option.mem_def,
      Option.some.injEq, forall_eq']
    split_ifs <;> omega
  · simp only [codePoint, hlead, toNat_continuation]
    rw [show (c.toNat / 64 + 0xC0) % 32 * 64 + (c.toNat % 64 + 0x80) % 64 = c.toNat by omega,
      Char.ofNat_toNat]

theorem spells_three (h : 0x800 ≤ c.toNat) (h' : c.toNat < 0x10000) :
    Spells (UInt8.ofNat (c.toNat / 4096 + 0xE0))
      [UInt8.ofNat (c.toNat / 64 % 64 + 0x80), UInt8.ofNat (c.toNat % 64 + 0x80)] c := by
  have hvalid : c.toNat < 0xD800 ∨ 0xDFFF < c.toNat ∧ c.toNat < 0x110000 := c.valid
  have hlead : (UInt8.ofNat (c.toNat / 4096 + 0xE0)).toNat = c.toNat / 4096 + 0xE0 := by
    simp; omega
  constructor
  · have hv : ¬c.val.toNat ≤ 127 := Nat.not_le.2 ((by decide : 127 < 0x800).trans_le h)
    have hv' : ¬c.val.toNat ≤ 2047 := Nat.not_le.2 h
    have hv'' : c.val.toNat ≤ 65535 := Nat.le_of_lt_succ h'
    simp only [String.utf8EncodeChar, hv, hv', hv'', if_true, if_false]
    rw [Nat.mod_eq_of_lt (show c.val.toNat / 4096 < 16 by omega)]
    rfl
  · simp only [Continuation, hlead]
    omega
  · simp only [width, hlead, length_cons, length_nil]
    split_ifs <;> omega
  · simp [-UInt8.ofNat_add, continuation_ofNat]
  · simp only [lower, upper, hlead, toNat_continuation, List.head?_cons, Option.mem_def,
      Option.some.injEq, forall_eq']
    split_ifs <;> omega
  · simp only [codePoint, hlead, toNat_continuation]
    rw [show (c.toNat / 4096 + 0xE0) % 16 * 4096 + (c.toNat / 64 % 64 + 0x80) % 64 * 64 +
      (c.toNat % 64 + 0x80) % 64 = c.toNat by omega, Char.ofNat_toNat]

theorem spells_four (h : 0x10000 ≤ c.toNat) :
    Spells (UInt8.ofNat (c.toNat / 262144 + 0xF0))
      [UInt8.ofNat (c.toNat / 4096 % 64 + 0x80), UInt8.ofNat (c.toNat / 64 % 64 + 0x80),
        UInt8.ofNat (c.toNat % 64 + 0x80)] c := by
  have hvalid : c.toNat < 0xD800 ∨ 0xDFFF < c.toNat ∧ c.toNat < 0x110000 := c.valid
  have hlead : (UInt8.ofNat (c.toNat / 262144 + 0xF0)).toNat = c.toNat / 262144 + 0xF0 := by
    simp; omega
  constructor
  · have hv : ¬c.val.toNat ≤ 127 := Nat.not_le.2 ((by decide : 127 < 0x10000).trans_le h)
    have hv' : ¬c.val.toNat ≤ 2047 := Nat.not_le.2 ((by decide : 2047 < 0x10000).trans_le h)
    have hv'' : ¬c.val.toNat ≤ 65535 := Nat.not_le.2 h
    have hsmall : c.val.toNat / 262144 < 8 := by
      have : c.val.toNat < 0x110000 := by
        show c.toNat < 0x110000
        omega
      omega
    simp only [String.utf8EncodeChar, hv, hv', hv'', if_false]
    rw [Nat.mod_eq_of_lt hsmall]
    rfl
  · simp only [Continuation, hlead]
    omega
  · simp only [width, hlead, length_cons, length_nil]
    split_ifs <;> omega
  · simp [-UInt8.ofNat_add, continuation_ofNat]
  · simp only [lower, upper, hlead, toNat_continuation, List.head?_cons, Option.mem_def,
      Option.some.injEq, forall_eq']
    split_ifs <;> omega
  · simp only [codePoint, hlead, toNat_continuation]
    rw [show (c.toNat / 262144 + 0xF0) % 8 * 262144 + (c.toNat / 4096 % 64 + 0x80) % 64 * 4096 +
      (c.toNat / 64 % 64 + 0x80) % 64 * 64 + (c.toNat % 64 + 0x80) % 64 = c.toNat by omega,
      Char.ofNat_toNat]

theorem exists_spells (c : Char) : ∃ lead rest, Spells lead rest c := by
  rcases Nat.lt_or_ge c.toNat 0x80 with h1 | h1
  · exact ⟨_, _, spells_one h1⟩
  · rcases Nat.lt_or_ge c.toNat 0x800 with h2 | h2
    · exact ⟨_, _, spells_two h1 h2⟩
    · rcases Nat.lt_or_ge c.toNat 0x10000 with h3 | h3
      · exact ⟨_, _, spells_three h2 h3⟩
      · exact ⟨_, _, spells_four h3⟩

/-- The machine on the bytes of one character: nothing comes out before the last of them. -/
theorem Spells.run_front {lead : UInt8} {rest : List UInt8} (h : Spells lead rest c)
    (init : List UInt8) : ∀ tail, rest = init ++ tail →
      run [] (lead :: init) = if tail = [] then ([c], []) else ([], lead :: init) := by
  have hcounts := h.counts
  induction init using List.reverseRecOn with
  | nil =>
    intro tail hrest
    obtain rfl : rest = tail := hrest
    have hrun : run [] [lead] = start lead := by simp [run, step_nil]
    rw [hrun, start]
    by_cases htail : rest = []
    · subst htail
      have hone : width lead = 1 := hcounts
      rw [hone, if_neg one_ne_zero, if_pos rfl, if_pos rfl, h.means]
    · have hlength : rest.length ≠ 0 := by simpa using htail
      rw [if_neg (by omega), if_neg (by omega), if_neg htail]
  | append_singleton init b ih =>
    intro tail hrest
    have hcut : rest = init ++ b :: tail := by rw [hrest]; simp
    have hrun := ih (b :: tail) hcut
    rw [if_neg (cons_ne_nil _ _)] at hrun
    have hmem : b ∈ rest := by rw [hcut]; simp
    have hfollows : Follows (lead :: init) b := by
      cases init with
      | nil => exact h.bounds b (by rw [hcut]; rfl)
      | cons => exact h.continues b hmem
    have hlength : rest.length = init.length + tail.length + 1 := by
      rw [hcut, length_append, length_cons]
      omega
    rw [← cons_append, run_concat, hrun]
    by_cases htail : tail = []
    · have hlast : (lead :: init).length + 1 = width lead := by
        rw [hcounts, hlength, htail, length_cons, length_nil]
      rw [if_pos htail, step_of_last hfollows hlast, ← h.means, hrest, htail, append_nil]
      rfl
    · have hpos : tail.length ≠ 0 := by simpa using htail
      have hlast : (lead :: init).length + 1 ≠ width lead := by
        rw [hcounts, hlength, length_cons]
        omega
      rw [if_neg htail, step_of_not_last hfollows hlast]
      rfl

theorem run_utf8EncodeChar (c : Char) : run [] (String.utf8EncodeChar c) = ([c], []) := by
  obtain ⟨lead, rest, h⟩ := exists_spells c
  rw [h.encodes, h.run_front rest [] (by simp), if_pos rfl]

theorem run_encode (t : List Char) : run [] (encode t) = (t, []) := by
  induction t with
  | nil => rfl
  | cons c t ih => simp [encode_cons, run_append, run_utf8EncodeChar, ih]

@[simp]
theorem decode_encode (t : List Char) : decode (encode t) = t := by
  simp [decode, run_encode, flush]

theorem decode_encode_append (t : List Char) (b : List UInt8) :
    decode (encode t ++ b) = t ++ decode b := by
  simp [decode, run_append, run_encode, append_assoc]

/-- The first byte of a text goes on with no character. -/
theorem not_continuation_of_mem_head?_encode (h : b ∈ (encode t).head?) : ¬Continuation b := by
  cases t with
  | nil => simp at h
  | cons c t =>
    obtain ⟨lead, rest, hspells⟩ := exists_spells c
    rw [encode_cons, hspells.encodes] at h
    obtain rfl : lead = b := by simpa using h
    exact hspells.leads

theorem decode_append_encode (a : List UInt8) (t : List Char) :
    decode (a ++ encode t) = decode a ++ t := by
  rw [decode_append fun x hx => not_continuation_of_mem_head?_encode hx, decode_encode]

/-! ### Cutting a text in bytes -/

/-- The two parts of the bytes of a character that are cut apart. -/
structure CutChar (c : Char) (left right : List UInt8) : Prop where
  encodes : String.utf8EncodeChar c = left ++ right
  left_ne : left ≠ []
  right_ne : right ≠ []

/-- The text in bytes is cut between two characters, or inside one. -/
theorem append_eq_encode {b : List UInt8} (h : a ++ b = encode t) :
    (∃ s u, t = s ++ u ∧ a = encode s ∧ b = encode u) ∨
      ∃ s c u left right, t = s ++ c :: u ∧ CutChar c left right ∧ a = encode s ++ left ∧
        b = right ++ encode u := by
  induction t generalizing a with
  | nil =>
    obtain ⟨rfl, rfl⟩ := append_eq_nil_iff.1 h
    exact .inl ⟨[], [], rfl, rfl, rfl⟩
  | cons c t ih =>
    rw [encode_cons] at h
    rcases append_eq_append_iff.1 h with ⟨right, hchar, hb⟩ | ⟨rest, ha, ht⟩
    · -- the cut is in the first character or at one of its ends
      by_cases hleft : a = []
      · subst hleft
        rw [nil_append] at hchar
        exact .inl ⟨[], c :: t, rfl, rfl, by rw [hb, ← hchar, encode_cons]⟩
      by_cases hright : right = []
      · subst hright
        rw [append_nil] at hchar
        refine .inl ⟨[c], t, rfl, ?_, hb⟩
        rw [encode_cons, encode_nil, append_nil, hchar]
      · exact .inr ⟨[], c, t, a, right, rfl, ⟨hchar, hleft, hright⟩, rfl, hb⟩
    · rcases ih ht.symm with ⟨s, u, rfl, rfl, rfl⟩ | ⟨s, d, u, left, right, rfl, hcut, rfl, rfl⟩
      · exact .inl ⟨c :: s, u, rfl, ha, rfl⟩
      · refine .inr ⟨c :: s, d, u, left, right, rfl, hcut, ?_, rfl⟩
        rw [ha, encode_cons, append_assoc]

theorem CutChar.continuation (h : CutChar c left right) : ∀ b ∈ right, Continuation b := by
  obtain ⟨lead, rest, hspells⟩ := exists_spells c
  obtain ⟨x, left', rfl⟩ := exists_cons_of_ne_nil h.left_ne
  have hencodes := h.encodes
  rw [hspells.encodes, cons_append, List.cons.injEq] at hencodes
  intro b hb
  exact hspells.continues b (by rw [hencodes.2]; exact mem_append_right _ hb)

/-- A text in the bytes of a text stands between characters. -/
theorem encode_infix {needle : List Char} (hne : needle ≠ []) {b : List UInt8}
    (h : encode t = a ++ (encode needle ++ b)) :
    ∃ s u, t = s ++ (needle ++ u) ∧ a = encode s ∧ b = encode u := by
  rcases append_eq_encode h.symm with ⟨s, u, rfl, rfl, hrest⟩ |
    ⟨s, c, u, left, right, -, hcut, -, hrest⟩
  · have htext : needle ++ decode b = u := by
      rw [← decode_encode_append, hrest, decode_encode]
    rw [← htext, encode_append] at hrest
    refine ⟨s, decode b, by rw [htext], rfl, append_cancel_left hrest⟩
  · obtain ⟨x, right', rfl⟩ := exists_cons_of_ne_nil hcut.right_ne
    have hx : x ∈ (encode needle).head? := by
      obtain ⟨y, rest, hy⟩ := exists_cons_of_ne_nil (mt encode_eq_nil_iff.1 hne)
      rw [hy, cons_append, cons_append, List.cons.injEq] at hrest
      rw [hy, hrest.1]
      rfl
    exact absurd (hcut.continuation x mem_cons_self) (not_continuation_of_mem_head?_encode hx)

theorem CutChar.decode_left (h : CutChar c left right) : decode left = [replacement] := by
  obtain ⟨lead, rest, hspells⟩ := exists_spells c
  obtain ⟨x, left', rfl⟩ := exists_cons_of_ne_nil h.left_ne
  have hencodes := h.encodes
  rw [hspells.encodes, cons_append, List.cons.injEq] at hencodes
  obtain ⟨rfl, hrest⟩ := hencodes
  have hrun := hspells.run_front left' right hrest
  rw [if_neg h.right_ne] at hrun
  simp [decode, hrun, flush]

theorem start_of_continuation (h : Continuation b) : start b = ([replacement], []) := by
  have hwidth : width b = 0 := by
    obtain ⟨hlow, hhigh⟩ := h
    simp only [width]
    split_ifs <;> omega
  simp [start, hwidth]

theorem run_of_continuation {bytes : List UInt8} (h : ∀ b ∈ bytes, Continuation b) :
    run [] bytes = (List.replicate bytes.length replacement, []) := by
  induction bytes with
  | nil => rfl
  | cons b bytes ih =>
    have hb : Continuation b := h b mem_cons_self
    have hrest := ih fun x hx => h x (mem_cons_of_mem b hx)
    simp only [run, step_nil, start_of_continuation hb, hrest]
    rfl

theorem CutChar.decode_right (h : CutChar c left right) :
    decode right = List.replicate right.length replacement := by
  simp [decode, run_of_continuation h.continuation, flush]

end Utf8

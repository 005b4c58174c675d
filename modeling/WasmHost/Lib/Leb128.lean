import Mathlib.Data.Nat.Bitwise
import Mathlib.Tactic.Common
import Mathlib.Tactic.Ring

/-!
# LEB128

Numbers as bytes of seven bits each, the lowest first. Every byte but the last has its high bit set.
An encoding may be longer than it has to be.

* `Leb128.Encodes`: the encodings of a number, of any length.
* `Leb128.Unsigned`: the encodings that a width leaves room for.
* `Leb128.toNat_or_shiftLeft`: what a reader in machine words does with one byte.
-/

namespace Leb128

/-- The bytes encode the number. -/
inductive Encodes : List UInt8 → ℕ → Prop
  | last {b : UInt8} (hb : b.toNat < 128) : Encodes [b] b.toNat
  | more {b : UInt8} {bytes : List UInt8} {n : ℕ} (hb : 128 ≤ b.toNat) (h : Encodes bytes n) :
      Encodes (b :: bytes) (b.toNat - 128 + 128 * n)

/-- The bytes are an unsigned number of the width. Each byte takes seven bits of it, and the last
one has to fit in what is left. -/
inductive Unsigned : ℕ → List UInt8 → ℕ → Prop
  | last {width : ℕ} {b : UInt8} (hb : b.toNat < 2 ^ 7) (hfits : b.toNat < 2 ^ width) :
      Unsigned width [b] b.toNat
  | more {width : ℕ} {b : UInt8} {bytes : List UInt8} {n : ℕ} (hb : 2 ^ 7 ≤ b.toNat)
      (hroom : 7 < width) (h : Unsigned (width - 7) bytes n) :
      Unsigned width (b :: bytes) (2 ^ 7 * n + (b.toNat - 2 ^ 7))

variable {bytes : List UInt8} {n width : ℕ}

theorem Encodes.length_pos (h : Encodes bytes n) : 0 < bytes.length := by
  cases h <;> exact Nat.succ_pos _

theorem Encodes.lt (h : Encodes bytes n) : n < 2 ^ (7 * bytes.length) := by
  induction h with
  | last hb => exact hb
  | @more b bytes n hb h ih =>
    have hbyte := b.toNat_lt
    rw [List.length_cons, Nat.mul_succ, Nat.pow_add]
    omega

/-- The last byte of an encoding holds the highest bits. -/
theorem Encodes.exists_last (h : Encodes bytes n) :
    ∃ front last m, bytes = front ++ [last] ∧ (∀ b ∈ front, 128 ≤ b.toNat) ∧ last.toNat < 128 ∧
      m < 2 ^ (7 * front.length) ∧ n = m + last.toNat * 2 ^ (7 * front.length) := by
  induction h with
  | @last b hb => exact ⟨[], b, 0, rfl, nofun, hb, Nat.one_pos, by simp⟩
  | @more b bytes n hb h ih =>
    obtain ⟨front, last, m, rfl, hfront, hlast, hm, rfl⟩ := ih
    have hbyte := b.toNat_lt
    refine ⟨b :: front, last, b.toNat - 128 + 128 * m, rfl, ?_, hlast, ?_, ?_⟩
    · exact List.forall_mem_cons.2 ⟨hb, hfront⟩
    · rw [List.length_cons, Nat.mul_succ, Nat.pow_add]
      omega
    · rw [List.length_cons, Nat.mul_succ, Nat.pow_add]
      ring

theorem exists_encodes {front : List UInt8} {last : UInt8} (hfront : ∀ b ∈ front, 128 ≤ b.toNat)
    (hlast : last.toNat < 128) :
    ∃ m, Encodes (front ++ [last]) (m + last.toNat * 2 ^ (7 * front.length)) := by
  induction front with
  | nil => exact ⟨0, by simpa using Encodes.last hlast⟩
  | cons b front ih =>
    obtain ⟨hb, hfront⟩ := List.forall_mem_cons.1 hfront
    obtain ⟨m, h⟩ := ih hfront
    refine ⟨b.toNat - 128 + 128 * m, ?_⟩
    have hvalue : b.toNat - 128 + 128 * (m + last.toNat * 2 ^ (7 * front.length)) =
        b.toNat - 128 + 128 * m + last.toNat * 2 ^ (7 * (b :: front).length) := by
      rw [List.length_cons, Nat.mul_succ, Nat.pow_add]
      ring
    rw [← hvalue]
    exact .more hb h

theorem Unsigned.encodes (h : Unsigned width bytes n) : Encodes bytes n := by
  induction h with
  | last hb hfits => exact .last hb
  | more hb hroom h ih =>
    rw [Nat.add_comm]
    exact .more hb ih

theorem Unsigned.lt (h : Unsigned width bytes n) : n < 2 ^ width := by
  induction h with
  | last hb hfits => exact hfits
  | @more width b bytes n hb hroom h ih =>
    have hbyte := b.toNat_lt
    have hwidth : 2 ^ width = 2 ^ 7 * 2 ^ (width - 7) := by
      rw [← Nat.pow_add, Nat.add_sub_cancel' hroom.le]
    omega

/-- A width leaves room for so many bytes. -/
theorem Unsigned.length_lt (h : Unsigned width bytes n) (hwidth : 0 < width) :
    7 * bytes.length < width + 7 := by
  induction h with
  | last => simpa using hwidth
  | more hb hroom h ih =>
    have := ih (by omega)
    rw [List.length_cons]
    omega

/-- The bits of a byte are put above the bits read before, as far as the word reaches. -/
theorem toNat_or_shiftLeft {shift : ℕ} {acc : BitVec width} (hacc : acc.toNat < 2 ^ shift)
    (hshift : shift ≤ width) (bits : BitVec width) :
    (acc ||| bits <<< shift).toNat = (acc.toNat + bits.toNat * 2 ^ shift) % 2 ^ width := by
  have hwidth : 2 ^ width = 2 ^ (width - shift) * 2 ^ shift := by
    rw [← Nat.pow_add, Nat.sub_add_cancel hshift]
  rw [BitVec.toNat_or, BitVec.toNat_shiftLeft, Nat.shiftLeft_eq, hwidth, Nat.mul_mod_mul_right,
    Nat.or_comm, Nat.mul_comm _ (2 ^ shift), ← Nat.two_pow_add_eq_or_of_lt hacc]
  have hsum : 2 ^ shift * (bits.toNat % 2 ^ (width - shift)) + acc.toNat <
      2 ^ (width - shift) * 2 ^ shift := by
    have hbits : bits.toNat % 2 ^ (width - shift) < 2 ^ (width - shift) :=
      Nat.mod_lt _ (Nat.two_pow_pos _)
    calc 2 ^ shift * (bits.toNat % 2 ^ (width - shift)) + acc.toNat
        < 2 ^ shift * (bits.toNat % 2 ^ (width - shift)) + 2 ^ shift := by omega
      _ = 2 ^ shift * (bits.toNat % 2 ^ (width - shift) + 1) := by rw [Nat.mul_succ]
      _ ≤ 2 ^ shift * 2 ^ (width - shift) := Nat.mul_le_mul_left _ hbits
      _ = 2 ^ (width - shift) * 2 ^ shift := Nat.mul_comm _ _
  rw [← Nat.mod_eq_of_lt hsum, ← Nat.mul_mod_mul_left,
    Nat.mul_comm (2 ^ shift) (2 ^ (width - shift)),
    Nat.mod_add_mod, Nat.add_comm, Nat.mul_comm (2 ^ shift)]

end Leb128

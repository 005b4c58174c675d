import Mathlib.Data.List.Basic
import Mathlib.Tactic.Common

/-!
# Streams in transit

A stream with a buffer between its producer and its consumer, seen from outside: what has been
handed to the consumer, what is still buffered, and what the producer has gathered. The stream is
first in, first out when the first two make up the third. What is stored into the buffer may be
longer than what was gathered for it; then the stream has gained a surplus that no later step
removes (`Stream.surplus_put`, `Stream.surplus_take`).
-/

/-- A stream in transit. -/
structure Transit (α : Type) where
  delivered : List α
  buffer : List α
  gathered : List α

namespace Transit

open List

variable {α : Type}

variable (s : Transit α)

/-- What was delivered and what is buffered is what was gathered, in order. -/
def Fifo : Prop := s.delivered ++ s.buffer = s.gathered

/-- Store a list into the buffer for a list that was gathered. -/
def put (stored gathered : List α) : Transit α where
  delivered := s.delivered
  buffer := s.buffer ++ stored
  gathered := s.gathered ++ gathered

/-- Hand the first elements of the buffer to the consumer. -/
def take (n : ℕ) : Transit α where
  delivered := s.delivered ++ s.buffer.take n
  buffer := s.buffer.drop n
  gathered := s.gathered

/-- At least as much is in the stream as was gathered. -/
def Covered : Prop := s.gathered.length ≤ s.delivered.length + s.buffer.length

/-- How much more is in the stream than was gathered. -/
def surplus : ℕ := s.delivered.length + s.buffer.length - s.gathered.length

theorem Fifo.surplus_eq_zero {s : Transit α} (h : s.Fifo) : s.surplus = 0 := by
  have hlength := congrArg List.length h
  rw [length_append] at hlength
  unfold surplus
  omega

theorem Fifo.covered {s : Transit α} (h : s.Fifo) : s.Covered := by
  have hlength := congrArg List.length h
  rw [length_append] at hlength
  unfold Covered
  omega

/-- Taking from a stream keeps its order. -/
theorem fifo_take {s : Transit α} (n : ℕ) (h : s.Fifo) : (s.take n).Fifo := by
  unfold Fifo take at *
  rw [append_assoc, take_append_drop, h]

/-- Storing exactly what was gathered keeps the order. -/
theorem fifo_put {s : Transit α} (xs : List α) (h : s.Fifo) : (s.put xs xs).Fifo := by
  unfold Fifo put at *
  rw [← append_assoc, h]

theorem surplus_take (n : ℕ) : (s.take n).surplus = s.surplus := by
  simp only [surplus, take, length_append, length_take, length_drop]
  omega

theorem covered_take {s : Transit α} (n : ℕ) (h : s.Covered) : (s.take n).Covered := by
  simp only [Covered, take, length_append, length_take, length_drop] at *
  omega

theorem covered_put {s : Transit α} {stored gathered : List α}
    (hle : gathered.length ≤ stored.length) (h : s.Covered) : (s.put stored gathered).Covered := by
  simp only [Covered, put, length_append] at *
  omega

/-- Storing more than was gathered adds to the surplus. -/
theorem surplus_put {s : Transit α} {stored gathered : List α}
    (hle : gathered.length ≤ stored.length) (h : s.Covered) :
    (s.put stored gathered).surplus = s.surplus + (stored.length - gathered.length) := by
  simp only [Covered, surplus, put, length_append] at *
  omega

end Transit

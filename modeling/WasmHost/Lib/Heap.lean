import Mathlib.Logic.Function.Basic
import Mathlib.Tactic.Common

/-!
# Object heaps

Objects with identity: a heap hands out an address for each new object, and two references
denote the same object iff they hold the same address. Objects are changed in place and never
freed. Addresses below `next` are allocated; every other cell still holds its initial value.
-/

/-- A heap of objects of type `α`. -/
structure Heap (α : Type) where
  /-- The object at each address. -/
  cell : ℕ → α
  /-- The next address to hand out. -/
  next : ℕ

namespace Heap

variable {α : Type} {i j : ℕ}

/-- The heap without objects; unallocated cells read as `default`. -/
def empty [Inhabited α] : Heap α := ⟨fun _ => default, 0⟩

variable (h : Heap α)

/-- The object at an address. -/
def get (i : ℕ) : α := h.cell i

/-- Change the object at an address in place. -/
def modify (i : ℕ) (f : α → α) : Heap α :=
  { h with cell := Function.update h.cell i (f (h.cell i)) }

/-- Allocate a new object. Its address is `h.next`. -/
def alloc (a : α) : Heap α where
  cell := Function.update h.cell h.next a
  next := h.next + 1

theorem get_modify (i j : ℕ) (f : α → α) :
    (h.modify i f).get j = if j = i then f (h.get i) else h.get j := by
  by_cases hj : j = i
  · subst hj
    simp [get, modify]
  · simp [get, modify, hj]

@[simp]
theorem get_modify_self (i : ℕ) (f : α → α) :
    (h.modify i f).get i = f (h.get i) := by
  simp [get_modify]

theorem get_modify_ne (f : α → α) (hj : j ≠ i) : (h.modify i f).get j = h.get j := by
  simp [get_modify, hj]

/-- Two changes of one object are one. -/
theorem modify_modify (i : ℕ) (f g : α → α) :
    (h.modify i f).modify i g = h.modify i fun a => g (f a) := by
  simp [modify]

/-- A change that gives back the object is none. -/
theorem modify_of_eq {f : α → α} (hf : f (h.get i) = h.get i) : h.modify i f = h := by
  have hcell : f (h.cell i) = h.cell i := hf
  rw [modify, hcell, Function.update_eq_self]

@[simp]
theorem next_modify (i : ℕ) (f : α → α) : (h.modify i f).next = h.next := rfl

theorem get_alloc (a : α) (j : ℕ) :
    (h.alloc a).get j = if j = h.next then a else h.get j := by
  by_cases hj : j = h.next
  · subst hj
    simp [get, alloc]
  · simp [get, alloc, hj]

@[simp]
theorem get_alloc_next (a : α) : (h.alloc a).get h.next = a := by
  simp [get_alloc]

/-- Allocation does not touch allocated objects. -/
theorem get_alloc_of_lt (a : α) (hj : j < h.next) : (h.alloc a).get j = h.get j := by
  simp [get_alloc, Nat.ne_of_lt hj]

@[simp]
theorem next_alloc (a : α) : (h.alloc a).next = h.next + 1 := rfl

/-- Change every object in place. -/
def map (f : α → α) (h : Heap α) : Heap α := { h with cell := fun i => f (h.cell i) }

@[simp]
theorem get_map (f : α → α) (h : Heap α) (i : ℕ) : (h.map f).get i = f (h.get i) := rfl

end Heap

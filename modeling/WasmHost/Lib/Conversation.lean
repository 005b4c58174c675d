import Mathlib.Data.List.Basic
import Mathlib.Tactic.Common

/-!
# Conversations on a shared channel

Messages of many parties go over one channel, each marked with the party it belongs to. The
conversation of a party is what it gets of them. It is *open* while no message of it is final, and
*closed by* a list of messages that starts with the first final one. Sending to one party leaves the
conversations of the others alone.
-/

namespace Conversation

variable {κ μ : Type} [DecidableEq κ] (party : μ → κ)

/-- The messages of one party. -/
def of (k : κ) (ms : List μ) : List μ := ms.filter fun m => party m = k

@[simp]
theorem of_nil (k : κ) : of party k [] = [] := rfl

theorem of_append (k : κ) (ms ns : List μ) :
    of party k (ms ++ ns) = of party k ms ++ of party k ns := List.filter_append ..

/-- Messages to one party. -/
theorem of_of_forall {k : κ} {ms : List μ} (h : ∀ m ∈ ms, party m = k) : of party k ms = ms :=
  List.filter_eq_self.2 fun m hm => by simpa using h m hm

/-- Messages to the other parties. -/
theorem of_of_forall_ne {k : κ} {ms : List μ} (h : ∀ m ∈ ms, party m ≠ k) : of party k ms = [] :=
  List.filter_eq_nil_iff.2 fun m hm => by simpa using h m hm

variable {party} (final : μ → Prop)

/-- No message is final. -/
def Open (ms : List μ) : Prop := ∀ m ∈ ms, ¬ final m

/-- The messages that end a conversation stand at its end. -/
def ClosedBy (ending ms : List μ) : Prop := ∃ front, ms = front ++ ending ∧ Open final front

variable {final}

theorem open_nil : Open final [] := fun _ h => absurd h List.not_mem_nil

theorem Open.snoc {ms : List μ} {m : μ} (h : Open final ms) (hm : ¬ final m) :
    Open final (ms ++ [m]) := by
  intro n hn
  rcases List.mem_append.1 hn with hn | hn
  · exact h n hn
  · rw [List.mem_singleton.1 hn]
    exact hm

theorem Open.close {ms : List μ} (h : Open final ms) (ending : List μ) :
    ClosedBy final ending (ms ++ ending) := ⟨ms, rfl, h⟩

/-- What stands in front of the end is open. -/
theorem ClosedBy.open_take {ending ms : List μ} (h : ClosedBy final ending ms) :
    Open final (ms.take (ms.length - ending.length)) := by
  obtain ⟨front, rfl, hopen⟩ := h
  simpa using hopen

end Conversation

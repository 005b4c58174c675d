import Mathlib.Data.List.Basic
import Mathlib.Tactic.Common

/-!
# Queues with gates

A queue of tasks some of which open a gate and some of which must find a gate open. The queue is in
order when every task that needs a gate finds it open already or stands behind one that opens it;
then the tasks can be taken from the front one after another.
-/

namespace Gate

variable {τ κ : Type} (opens needs : τ → Option κ)

/-- Each task finds its gate open when the tasks before it are done. -/
def InOrder : (κ → Prop) → List τ → Prop
  | _, [] => True
  | isOpen, t :: rest =>
      (∀ k, needs t = some k → isOpen k) ∧ InOrder (fun k => opens t = some k ∨ isOpen k) rest

variable {opens needs} {isOpen isOpen' : κ → Prop} {queue queue' : List τ}

theorem InOrder.mono (h : InOrder opens needs isOpen queue) (hopen : ∀ k, isOpen k → isOpen' k) :
    InOrder opens needs isOpen' queue := by
  induction queue generalizing isOpen isOpen' with
  | nil => trivial
  | cons t rest ih =>
    exact ⟨fun k hk => hopen k (h.1 k hk), ih h.2 fun k hk => hk.imp_right (hopen k)⟩

/-- Once the first task is done and its gate is open, the rest is in order. -/
theorem InOrder.tail {t : τ} (h : InOrder opens needs isOpen (t :: queue))
    (hopens : ∀ k, opens t = some k → isOpen' k) (hopen : ∀ k, isOpen k → isOpen' k) :
    InOrder opens needs isOpen' queue :=
  h.2.mono fun k hk => hk.elim (hopens k) (hopen k)

/-- Tasks behind a queue find open what it opens. -/
theorem inOrder_append : InOrder opens needs isOpen (queue ++ queue') ↔
    InOrder opens needs isOpen queue ∧
      InOrder opens needs (fun k => (∃ t ∈ queue, opens t = some k) ∨ isOpen k) queue' := by
  induction queue generalizing isOpen with
  | nil => simp [InOrder]
  | cons t rest ih =>
    rw [List.cons_append, InOrder, InOrder, ih, and_assoc]
    refine and_congr_right fun _ => and_congr_right fun _ => ?_
    have hgates : ∀ k, ((∃ u ∈ rest, opens u = some k) ∨ opens t = some k ∨ isOpen k) ↔
        (∃ u ∈ t :: rest, opens u = some k) ∨ isOpen k := by
      intro k
      rw [List.exists_mem_cons_iff, or_assoc, or_left_comm]
    exact ⟨fun h => h.mono fun k => (hgates k).1, fun h => h.mono fun k => (hgates k).2⟩

/-- Tasks that need what is open can be put anywhere. -/
theorem inOrder_of_forall (h : ∀ t ∈ queue, ∀ k, needs t = some k → isOpen k) :
    InOrder opens needs isOpen queue := by
  induction queue generalizing isOpen with
  | nil => trivial
  | cons t rest ih =>
    exact ⟨h t List.mem_cons_self, ih fun u hu k hk => .inr (h u (List.mem_cons_of_mem _ hu) k hk)⟩

end Gate

import Mathlib.Data.Nat.Init
import Mathlib.Tactic.Common

/-!
# Fair schedules

An infinite schedule of a system of parties is fair if every party is scheduled again and again.
A system reaches its goal along every fair schedule if it has a rank: in every state some party can
be relied on, whose next step lowers the rank, and the steps of the others neither raise the rank
nor change the party (`Ranking.eventually`).
-/

variable {σ ε : Type}

/-- The state after the first `n` steps of a schedule. -/
def runTo (step : σ → ε → σ) (schedule : ℕ → ε) (s : σ) : ℕ → σ
  | 0 => s
  | n + 1 => step (runTo step schedule s n) (schedule n)

/-- Every party is scheduled again and again. -/
def Fair (schedule : ℕ → ε) : Prop := ∀ e n, ∃ m, n ≤ m ∧ schedule m = e

/-- A rank of the states of an invariant that have not reached the goal. -/
structure Ranking (step : σ → ε → σ) (inv goal : σ → Prop) where
  rank : σ → ℕ
  helper : σ → ε
  keeps : ∀ {s} e, inv s → ¬goal s → inv (step s e)
  descends : ∀ {s} e, inv s → ¬goal s → goal (step s e) ∨ rank (step s e) < rank s ∨
    (rank (step s e) = rank s ∧ helper (step s e) = helper s ∧ e ≠ helper s)

namespace Ranking

variable {step : σ → ε → σ} {inv goal : σ → Prop} (r : Ranking step inv goal) {schedule : ℕ → ε}
  {s : σ}

/-- Until the helper is scheduled, the goal is reached, the rank falls, or both stay. -/
theorem until_helper {n : ℕ} (hinv : inv (runTo step schedule s n)) {m : ℕ} (hm : n ≤ m) :
    (∃ k, goal (runTo step schedule s k)) ∨
      (∃ k, inv (runTo step schedule s k) ∧
        r.rank (runTo step schedule s k) < r.rank (runTo step schedule s n)) ∨
      (inv (runTo step schedule s m) ∧
        r.rank (runTo step schedule s m) = r.rank (runTo step schedule s n) ∧
        r.helper (runTo step schedule s m) = r.helper (runTo step schedule s n)) := by
  induction m, hm using Nat.le_induction with
  | base => exact .inr (.inr ⟨hinv, rfl, rfl⟩)
  | succ m hm ih =>
    rcases ih with hgoal | hlower | ⟨hinv', hrank, hhelper⟩
    · exact .inl hgoal
    · exact .inr (.inl hlower)
    · by_cases hgoal : goal (runTo step schedule s m)
      · exact .inl ⟨m, hgoal⟩
      · have hnext := r.keeps (schedule m) hinv' hgoal
        rcases r.descends (schedule m) hinv' hgoal with hdone | hlower | ⟨hsame, hkept, -⟩
        · exact .inl ⟨m + 1, hdone⟩
        · exact .inr (.inl ⟨m + 1, hnext, hrank ▸ hlower⟩)
        · exact .inr (.inr ⟨hnext, hsame.trans hrank, hkept.trans hhelper⟩)

include r in
/-- Along a fair schedule the goal is reached. -/
theorem eventually (hfair : Fair schedule) (hs : inv s) : ∃ n, goal (runTo step schedule s n) := by
  -- the induction is on the rank of any state of the run
  suffices hmain : ∀ k n, inv (runTo step schedule s n) →
      r.rank (runTo step schedule s n) = k → ∃ n, goal (runTo step schedule s n) from
    hmain _ 0 hs rfl
  intro k
  induction k using Nat.strong_induction_on with
  | _ k ih =>
    rintro n hinv rfl
    obtain ⟨m, hm, hhelper⟩ := hfair (r.helper (runTo step schedule s n)) n
    rcases r.until_helper hinv hm with hgoal | ⟨k, hinv', hlower⟩ | ⟨hinv', hrank, hkept⟩
    · exact hgoal
    · exact ih _ hlower k hinv' rfl
    · by_cases hgoal : goal (runTo step schedule s m)
      · exact ⟨m, hgoal⟩
      · rcases r.descends (schedule m) hinv' hgoal with hdone | hlower | ⟨-, -, hne⟩
        · exact ⟨m + 1, hdone⟩
        · exact ih _ (hrank ▸ hlower) (m + 1) (r.keeps (schedule m) hinv' hgoal) rfl
        · exact absurd (hhelper.trans hkept.symm) hne

end Ranking

import Mathlib.Tactic.Common

/-!
# Runs of a step function

Runs of a deterministic system that is driven by events. `Run step ok s t` says that `t` is
reached from `s` by finitely many events, each of which satisfies the side condition `ok` in
the state it is taken in. `Run.invariant` is the induction principle every safety result of
the development goes through: an invariant that holds initially and is preserved by each
admissible event holds in every state reached.
-/

variable {σ ε : Type}

/-- `t` is reached from `s` by events that satisfy `ok` in the state they are taken in. -/
inductive Run (step : σ → ε → σ) (ok : σ → ε → Prop) (s : σ) : σ → Prop
  | start : Run step ok s s
  | next {t : σ} (e : ε) : Run step ok s t → ok t e → Run step ok s (step t e)

/-- `t` is reached from `s` by finitely many events of any kind. -/
abbrev Reach (step : σ → ε → σ) (s t : σ) : Prop := Run step (fun _ _ => True) s t

namespace Run

variable {step : σ → ε → σ} {ok : σ → ε → Prop} {s t u : σ}

/-- An invariant preserved by every admissible event holds in every state reached. -/
theorem invariant {I : σ → Prop} (hstart : I s)
    (hstep : ∀ t e, I t → ok t e → I (step t e)) (hrun : Run step ok s t) : I t := by
  induction hrun with
  | start => exact hstart
  | next e _ hok ih => exact hstep _ e ih hok

/-- Runs compose. -/
theorem trans (hst : Run step ok s t) (htu : Run step ok t u) : Run step ok s u := by
  induction htu with
  | start => exact hst
  | next e _ hok ih => exact .next e ih hok

end Run

/-- One event is a run. -/
theorem reach_step (step : σ → ε → σ) (s : σ) (e : ε) : Reach step s (step s e) :=
  Run.start.next e trivial

/-! ### Lists of events -/

section List

variable (step : σ → ε → σ)

/-- The state after a list of events. -/
def runAll (s : σ) (es : List ε) : σ := es.foldl step s

/-- A property of the states and the events taken in them holds along a list of events. -/
def Along (p : σ → ε → Prop) : σ → List ε → Prop
  | _, [] => True
  | s, e :: es => p s e ∧ Along p (step s e) es

/-- A property holds in every state that a list of events goes through. -/
def Always (p : σ → Prop) : σ → List ε → Prop
  | s, [] => p s
  | s, e :: es => p s ∧ Always p (step s e) es

variable {step}

@[simp]
theorem runAll_nil (s : σ) : runAll step s ([] : List ε) = s := rfl

@[simp]
theorem runAll_cons (s : σ) (e : ε) (es : List ε) :
    runAll step s (e :: es) = runAll step (step s e) es := rfl

theorem runAll_concat (s : σ) (es : List ε) (e : ε) :
    runAll step s (es ++ [e]) = step (runAll step s es) e := by
  unfold runAll
  rw [List.foldl_append]
  rfl

/-- The events of a list are a run. -/
theorem reach_runAll (s : σ) (es : List ε) : Reach step s (runAll step s es) := by
  induction es generalizing s with
  | nil => exact .start
  | cons e es ih => exact (Run.start.next e trivial).trans (ih (step s e))

theorem Always.head {p : σ → Prop} {s : σ} {es : List ε} (h : Always step p s es) : p s := by
  cases es with
  | nil => exact h
  | cons => exact h.1

theorem Always.last {p : σ → Prop} {s : σ} {es : List ε} (h : Always step p s es) :
    p (runAll step s es) := by
  induction es generalizing s with
  | nil => exact h
  | cons e es ih => exact ih h.2

theorem Always.mono {p q : σ → Prop} (hpq : ∀ s, p s → q s) {s : σ} {es : List ε}
    (h : Always step p s es) : Always step q s es := by
  induction es generalizing s with
  | nil => exact hpq s h
  | cons e es ih => exact ⟨hpq s h.1, ih h.2⟩

/-- An invariant preserved by the events of a list holds in every state it goes through. -/
theorem Always.of_along {p : σ → Prop} {q : σ → ε → Prop} {s : σ} {es : List ε}
    (hstep : ∀ s e, p s → q s e → p (step s e)) (hs : p s) (h : Along step q s es) :
    Always step p s es := by
  induction es generalizing s with
  | nil => exact hs
  | cons e es ih => exact ⟨hs, ih (hstep s e hs h.1) h.2⟩

/-- An invariant preserved by every event holds in every state a list of events goes through. -/
theorem Always.of_step {p : σ → Prop} (hstep : ∀ s e, p s → p (step s e)) {s : σ} (hs : p s)
    (es : List ε) : Always step p s es := by
  induction es generalizing s with
  | nil => exact hs
  | cons e es ih => exact ⟨hs, ih (hstep s e hs)⟩

/-- What a property of the states gives about the events taken in them. -/
theorem Always.along {p : σ → Prop} {q : σ → ε → Prop} (hpq : ∀ s e, p s → q s e) {s : σ}
    {es : List ε} (h : Always step p s es) : Along step q s es := by
  induction es generalizing s with
  | nil => trivial
  | cons e es ih => exact ⟨hpq s e h.1, ih h.2⟩

/-- The last event of a list. -/
theorem Along.concat {p : σ → ε → Prop} {s : σ} {es : List ε} {e : ε}
    (h : Along step p s (es ++ [e])) : p (runAll step s es) e := by
  induction es generalizing s with
  | nil => exact h.1
  | cons e' es ih => exact ih h.2

theorem along_of_forall {p : σ → ε → Prop} {s : σ} {es : List ε} (h : ∀ s, ∀ e ∈ es, p s e) :
    Along step p s es := by
  induction es generalizing s with
  | nil => trivial
  | cons e es ih =>
    exact ⟨h s e List.mem_cons_self, ih fun s x hx => h s x (List.mem_cons_of_mem _ hx)⟩

theorem Along.mono {p q : σ → ε → Prop} (hpq : ∀ s e, p s e → q s e) {s : σ} {es : List ε}
    (h : Along step p s es) : Along step q s es := by
  induction es generalizing s with
  | nil => trivial
  | cons e es ih => exact ⟨hpq s e h.1, ih h.2⟩

theorem Along.and {p q : σ → ε → Prop} {s : σ} {es : List ε} (hp : Along step p s es)
    (hq : Along step q s es) : Along step (fun s e => p s e ∧ q s e) s es := by
  induction es generalizing s with
  | nil => trivial
  | cons e es ih => exact ⟨⟨hp.1, hq.1⟩, ih hp.2 hq.2⟩

end List

/-! ### Properties along a list of events -/

section

variable {step : σ → ε → σ}

/-- Where an event keeps a property exactly when it is admissible, in states with an invariant, the
property holds throughout exactly when every event is admissible. -/
theorem always_iff {I p : σ → Prop} {q : σ → ε → Prop} (hstep : ∀ s e, I s → I (step s e))
    (hiff : ∀ s e, I s → p s → (p (step s e) ↔ q s e)) {s : σ} (hs : I s) (hp : p s)
    (es : List ε) : Always step p s es ↔ Along step q s es := by
  induction es generalizing s with
  | nil => exact iff_of_true hp trivial
  | cons e es ih =>
    constructor
    · rintro ⟨-, hrest⟩
      -- the rest of the run starts in a state with the property
      have hnext : p (step s e) := hrest.head
      exact ⟨(hiff s e hs hp).1 hnext, (ih (hstep s e hs) hnext).1 hrest⟩
    · rintro ⟨hq, hrest⟩
      have hnext := (hiff s e hs hp).2 hq
      exact ⟨hp, (ih (hstep s e hs) hnext).2 hrest⟩

/-- The same with a property `p` that only a second one, `c`, makes inductive: `c` gives `p`, an
event that keeps `p` is admissible, and an admissible event keeps `c`. -/
theorem always_iff_of_inductive {I p c : σ → Prop} {q : σ → ε → Prop}
    (hstep : ∀ s e, I s → I (step s e)) (hweak : ∀ s, I s → c s → p s)
    (hadmissible : ∀ s e, I s → c s → p (step s e) → q s e)
    (hkeep : ∀ s e, I s → c s → q s e → c (step s e)) {s : σ} (hs : I s) (hc : c s)
    (es : List ε) : Always step p s es ↔ Along step q s es := by
  induction es generalizing s with
  | nil => exact iff_of_true (hweak s hs hc) trivial
  | cons e es ih =>
    constructor
    · rintro ⟨-, hrest⟩
      have hq := hadmissible s e hs hc hrest.head
      exact ⟨hq, (ih (hstep s e hs) (hkeep s e hs hc hq)).1 hrest⟩
    · rintro ⟨hq, hrest⟩
      exact ⟨hweak s hs hc, (ih (hstep s e hs) (hkeep s e hs hc hq)).2 hrest⟩

/-- Where every admissible event keeps an invariant, and an event has a property exactly when it is
admissible, the property holds along a list of events exactly when all of them are admissible. -/
theorem along_iff_of_inductive {c : σ → Prop} {p q : σ → ε → Prop}
    (hiff : ∀ s e, c s → (p s e ↔ q s e)) (hkeep : ∀ s e, c s → q s e → c (step s e)) {s : σ}
    (hs : c s) (es : List ε) : Along step p s es ↔ Along step q s es := by
  induction es generalizing s with
  | nil => exact Iff.rfl
  | cons e es ih =>
    refine (and_congr_left' (hiff s e hs)).trans (and_congr_right fun hq => ?_)
    exact ih (hkeep s e hs hq)

/-- Where two properties of states and events agree in every state with an invariant, they agree
along every list of events from such a state. -/
theorem along_iff {I : σ → Prop} {p q : σ → ε → Prop} (hstep : ∀ s e, I s → I (step s e))
    (hiff : ∀ s e, I s → (p s e ↔ q s e)) {s : σ} (hs : I s) (es : List ε) :
    Along step p s es ↔ Along step q s es := by
  induction es generalizing s with
  | nil => exact Iff.rfl
  | cons e es ih => exact and_congr (hiff s e hs) (ih (hstep s e hs))

end

/-! ### Folds -/

/-- A reflexive and transitive relation that holds between a state and the next one of a fold holds
between its start and its end. -/
theorem foldl_rel {r : σ → σ → Prop} (hrefl : ∀ s, r s s)
    (htrans : ∀ s t u, r s t → r t u → r s u) {f : σ → ε → σ} (hf : ∀ s e, r s (f s e))
    (items : List ε) (s : σ) : r s (items.foldl f s) := by
  induction items generalizing s with
  | nil => exact hrefl s
  | cons e items ih => exact htrans _ _ _ (hf s e) (ih (f s e))

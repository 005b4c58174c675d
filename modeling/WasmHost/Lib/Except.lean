import Mathlib.Data.List.Forall2
import Mathlib.Tactic.Common

/-!
# Fallible steps

`List.mapM` in `Except`: it succeeds exactly when every element does, and then it returns the
results in order. Steps on a state that may fail and keep the state they have reached.
-/

namespace Except

open List

variable {ε α β : Type}

theorem bind_eq_ok_iff {x : Except ε α} {f : α → Except ε β} {b : β} :
    x.bind f = .ok b ↔ ∃ a, x = .ok a ∧ f a = .ok b := by
  cases x with
  | error | ok => simp [Except.bind]

theorem bind_eq_error_iff {x : Except ε α} {f : α → Except ε β} {e : ε} :
    x.bind f = .error e ↔ x = .error e ∨ ∃ a, x = .ok a ∧ f a = .error e := by
  cases x with
  | error | ok => simp [Except.bind]

theorem mapError_eq_ok_iff {ε' : Type} {f : ε → ε'} {x : Except ε α} {a : α} :
    x.mapError f = .ok a ↔ x = .ok a := by
  cases x <;> simp [Except.mapError]

theorem ite_error_eq_ok_iff {c : Prop} [Decidable c] {e : ε} {x : Except ε α} {a : α} :
    (if c then .error e else x) = .ok a ↔ ¬c ∧ x = .ok a := by
  split_ifs with h <;> simp [h]

/-- A step that avoids an error, after a step that does. -/
theorem bind_ne_error {x : Except ε α} {f : α → Except ε β} {e : ε} (hx : x ≠ .error e)
    (hf : ∀ a, f a ≠ .error e) : x.bind f ≠ .error e := by
  cases x with
  | error => simpa [Except.bind] using hx
  | ok a => exact hf a

theorem mapM_eq_ok_iff {f : α → Except ε β} {as : List α} {bs : List β} :
    as.mapM f = .ok bs ↔ List.Forall₂ (fun a b => f a = .ok b) as bs := by
  induction as generalizing bs with
  | nil =>
    rw [mapM_nil, List.forall₂_nil_left_iff]
    exact ⟨fun h => (Except.ok.inj h).symm, fun h => h ▸ rfl⟩
  | cons a as ih =>
    rw [mapM_cons, List.forall₂_cons_left_iff]
    change (f a).bind _ = .ok bs ↔ _
    rw [bind_eq_ok_iff]
    constructor
    · rintro ⟨b, hb, hrest⟩
      obtain ⟨bs', hbs', hcons⟩ := bind_eq_ok_iff.1 hrest
      exact ⟨b, bs', hb, ih.1 hbs', (Except.ok.inj hcons).symm⟩
    · rintro ⟨b, bs', hb, hbs', rfl⟩
      exact ⟨b, hb, bind_eq_ok_iff.2 ⟨bs', ih.2 hbs', rfl⟩⟩

/-- Steps that all succeed. -/
theorem mapM_eq_ok_map {f : α → Except ε β} {g : α → β} {as : List α}
    (h : ∀ a ∈ as, f a = .ok (g a)) : as.mapM f = .ok (as.map g) := by
  rw [mapM_eq_ok_iff, List.forall₂_map_right_iff, List.forall₂_same]
  exact h

/-- A traversal whose steps all succeed succeeds. -/
theorem exists_mapM_eq_ok {f : α → Except ε β} {as : List α} (h : ∀ a ∈ as, ∃ b, f a = .ok b) :
    ∃ bs, as.mapM f = .ok bs := by
  induction as with
  | nil => exact ⟨[], rfl⟩
  | cons a as ih =>
    obtain ⟨b, hb⟩ := h a mem_cons_self
    obtain ⟨bs, hbs⟩ := ih fun x hx => h x (mem_cons_of_mem _ hx)
    exact ⟨b :: bs, mapM_eq_ok_iff.2 (.cons hb (mapM_eq_ok_iff.1 hbs))⟩

/-- Steps that all avoid an error. -/
theorem mapM_ne_error {f : α → Except ε β} {as : List α} {e : ε}
    (h : ∀ a ∈ as, f a ≠ .error e) : as.mapM f ≠ .error e := by
  induction as with
  | nil => exact nofun
  | cons a as ih =>
    rw [mapM_cons]
    refine bind_ne_error (h a mem_cons_self) fun b => ?_
    exact bind_ne_error (ih fun x hx => h x (mem_cons_of_mem _ hx)) nofun

/-- Every result comes from an element. -/
theorem exists_of_mem_mapM {f : α → Except ε β} {as : List α} {bs : List β}
    (h : as.mapM f = .ok bs) {b : β} (hb : b ∈ bs) : ∃ a ∈ as, f a = .ok b := by
  obtain ⟨i, hi, rfl⟩ := getElem_of_mem hb
  have hall := mapM_eq_ok_iff.1 h
  have hlen := hall.length_eq
  exact ⟨as[i], getElem_mem _, hall.get (hlen ▸ hi) hi⟩

/-- Every element has a result. -/
theorem exists_of_mem_of_mapM {f : α → Except ε β} {as : List α} {bs : List β}
    (h : as.mapM f = .ok bs) {a : α} (ha : a ∈ as) : ∃ b ∈ bs, f a = .ok b := by
  obtain ⟨i, hi, rfl⟩ := getElem_of_mem ha
  have hall := mapM_eq_ok_iff.1 h
  have hlen := hall.length_eq
  exact ⟨bs[i], getElem_mem _, hall.get hi (hlen ▸ hi)⟩

/-- The last step of a fold. -/
theorem foldlM_concat (f : α → β → Except ε α) (a : α) (bs : List β) (b : β) :
    (bs ++ [b]).foldlM f a = (bs.foldlM f a).bind fun a' => f a' b := by
  rw [foldlM_append]
  congr 1
  funext a'
  rw [foldlM_cons]
  cases f a' b <;> rfl

/-! ### What a step comes to -/

/-- A result meets the one condition, and an error the other. -/
def Meets (P : α → Prop) (E : ε → Prop) : Except ε α → Prop
  | .ok a => P a
  | .error e => E e

variable {P : α → Prop} {Q : β → Prop} {E : ε → Prop}

theorem Meets.imp {P' : α → Prop} {x : Except ε α} (h : x.Meets P E) (hp : ∀ a, P a → P' a) :
    x.Meets P' E := by
  cases x with
  | ok a => exact hp a h
  | error => exact h

theorem Meets.bind {x : Except ε α} {f : α → Except ε β} (h : x.Meets P E)
    (hf : ∀ a, P a → (f a).Meets Q E) : (x.bind f).Meets Q E := by
  cases x with
  | ok a => exact hf a h
  | error => exact h

/-- What every step keeps, a run keeps. -/
theorem Meets.foldlM {f : α → β → Except ε α} (hf : ∀ a b, P a → (f a b).Meets P E) {a : α}
    (ha : P a) (bs : List β) : (bs.foldlM f a).Meets P E := by
  induction bs generalizing a with
  | nil => exact ha
  | cons b bs ih => exact (hf a b ha).bind fun _ h => ih h

end Except

/-! ### Fallible steps on a state -/

namespace ExceptT

variable {ε σ α β : Type}

/-- The second step starts in the state that the first one left, and an error keeps that state. -/
theorem bind_apply (x : ExceptT ε (StateM σ) α) (f : α → ExceptT ε (StateM σ) β) (s : σ) :
    (x >>= f) s =
      match x s with
      | (.ok a, s') => f a s'
      | (.error e, s') => (.error e, s') := by
  show (match x s with | (r, s') => ExceptT.bindCont f r s') = _
  rcases x s with ⟨e | a, s'⟩ <;> rfl

theorem bind_apply_of_ok {x : ExceptT ε (StateM σ) α} {s s' : σ} {a : α} (h : x s = (.ok a, s'))
    (f : α → ExceptT ε (StateM σ) β) : (x >>= f) s = f a s' := by
  rw [bind_apply, h]

theorem bind_apply_of_error {x : ExceptT ε (StateM σ) α} {s s' : σ} {e : ε}
    (h : x s = (.error e, s')) (f : α → ExceptT ε (StateM σ) β) : (x >>= f) s = (.error e, s') := by
  rw [bind_apply, h]

/-! ### What a step ends in -/

/-- The step ends in a state with `Q` where it returns, and in one with `E` where it fails. -/
def Ends (x : ExceptT ε (StateM σ) α) (s : σ) (Q : α → σ → Prop) (E : ε → σ → Prop) : Prop :=
  match x s with
  | (.ok a, s') => Q a s'
  | (.error e, s') => E e s'

section

variable {s : σ} {Q : α → σ → Prop} {R : β → σ → Prop} {E : ε → σ → Prop}

theorem ends_get {Q : σ → σ → Prop} : (get : ExceptT ε (StateM σ) σ).Ends s Q E ↔ Q s s := Iff.rfl

theorem ends_modify {f : σ → σ} {Q : PUnit → σ → Prop} :
    (modify f : ExceptT ε (StateM σ) PUnit).Ends s Q E ↔ Q ⟨⟩ (f s) := Iff.rfl

/-- The second step starts where the first one returned. -/
theorem ends_bind {x : ExceptT ε (StateM σ) α} {f : α → ExceptT ε (StateM σ) β} :
    (x >>= f).Ends s R E ↔ x.Ends s (fun a s' => (f a).Ends s' R E) E := by
  unfold Ends
  rw [bind_apply]
  rcases x s with ⟨e | a, s'⟩ <;> exact Iff.rfl

theorem ends_ite {c : Prop} [Decidable c] {x y : ExceptT ε (StateM σ) α} :
    (if c then x else y).Ends s Q E ↔ (c → x.Ends s Q E) ∧ (¬c → y.Ends s Q E) := by
  split
  next h => simp [h]
  next h => simp [h]

/-- A result that was there before the step. -/
theorem ends_mk_pure {x : Except ε α} :
    (ExceptT.mk (pure x) : ExceptT ε (StateM σ) α).Ends s Q E ↔
      (∀ a, x = .ok a → Q a s) ∧ ∀ e, x = .error e → E e s := by
  show (match (x, s) with | (.ok a, s') => Q a s' | (.error e, s') => E e s') ↔ _
  cases x with
  | error | ok => simp

theorem Ends.imp {x : ExceptT ε (StateM σ) α} {Q' : α → σ → Prop} {E' : ε → σ → Prop}
    (h : x.Ends s Q E) (hq : ∀ a s', Q a s' → Q' a s') (he : ∀ e s', E e s' → E' e s') :
    x.Ends s Q' E' := by
  unfold Ends at *
  generalize x s = result at *
  rcases result with ⟨e | a, s'⟩
  · exact he _ _ h
  · exact hq _ _ h

end

end ExceptT

import RyanNetwork.Lib.Outcome
import RyanNetwork.Lib.Runs

/-!
# Two systems in lockstep

Two computations run in lockstep when they fail with the same fault or return related
values. Two systems whose steps are in lockstep have the same runs.
-/
namespace RyanNetwork.Lib

set_option autoImplicit false

variable {ε α β γ δ : Type} {R : α → β → Prop} {S : γ → δ → Prop}

inductive Lockstep (R : α → β → Prop) : Except ε α → Except ε β → Prop where
  | ok {a : α} {b : β} (h : R a b) : Lockstep R (.ok a) (.ok b)
  | error (e : ε) : Lockstep R (.error e) (.error e)

namespace Lockstep

theorem bind {x : Except ε α} {y : Except ε β} {f : α → Except ε γ} {g : β → Except ε δ}
    (h : Lockstep R x y) (hf : ∀ a b, R a b → Lockstep S (f a) (g b)) :
    Lockstep S (x >>= f) (y >>= g) := by
  cases h with
  | ok h => exact hf _ _ h
  | error e => exact .error e

/-- The two sides start with one and the same computation. -/
theorem bind_same {x : Except ε α} {f : α → Except ε γ} {g : α → Except ε δ}
    (hf : ∀ a, Lockstep S (f a) (g a)) : Lockstep S (x >>= f) (x >>= g) := by
  cases x with
  | error e => exact .error e
  | ok a => exact hf a

theorem ite {c : Prop} [Decidable c] {x x' : Except ε α} {y y' : Except ε β}
    (hp : c → Lockstep R x y) (hn : ¬c → Lockstep R x' y') :
    Lockstep R (if c then x else x') (if c then y else y') := by
  by_cases hc : c
  · rw [if_pos hc, if_pos hc]
    exact hp hc
  · rw [if_neg hc, if_neg hc]
    exact hn hc

/-- The right side goes on with a pure function. -/
theorem map_right {R' : α → γ → Prop} {x : Except ε α} {y : Except ε β} {g : β → γ}
    (h : Lockstep R x y) (hg : ∀ a b, x = .ok a → R a b → R' a (g b)) :
    Lockstep R' x (y >>= fun b => .ok (g b)) := by
  cases h with
  | ok h => exact .ok (hg _ _ rfl h)
  | error e => exact .error e

theorem of_left {x : Except ε α} {y : Except ε β} {a : α} (h : Lockstep R x y) (hx : x = .ok a) :
    ∃ b, y = .ok b ∧ R a b := by
  cases h with
  | ok h =>
    cases hx
    exact ⟨_, rfl, h⟩
  | error e => cases hx

theorem of_right {x : Except ε α} {y : Except ε β} {b : β} (h : Lockstep R x y) (hy : y = .ok b) :
    ∃ a, x = .ok a ∧ R a b := by
  cases h with
  | ok h =>
    cases hy
    exact ⟨_, rfl, h⟩
  | error e => cases hy

end Lockstep

/-- Where every step of one system is matched by a step of the other, so is every run. -/
theorem Run.matched {σ τ ι : Type} {A : σ → ι → σ → Prop} {B : τ → ι → τ → Prop}
    {I : σ → τ → Prop} (hstep : ∀ s a s' t, I s t → A s a s' → ∃ t', B t a t' ∧ I s' t')
    {s s' : σ} {t : τ} {as : List ι} (h : Run A s as s') (hI : I s t) :
    ∃ t', Run B t as t' ∧ I s' t' := by
  induction h generalizing t with
  | nil s => exact ⟨t, .nil t, hI⟩
  | cons ha _ ih =>
    obtain ⟨u, hu, hIu⟩ := hstep _ _ _ _ hI ha
    obtain ⟨t', hr, hI'⟩ := ih hIu
    exact ⟨t', .cons hu hr, hI'⟩

end RyanNetwork.Lib

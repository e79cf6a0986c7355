import Mathlib.Data.List.Basic

/-!
# Postconditions of computations that may fail

`Outcome x P E` says how a computation in `Except` ends: a returned value
satisfies `P`, a failure satisfies `E`. The rules follow the computation.
-/
namespace RyanNetwork.Lib

set_option autoImplicit false

variable {ε α β : Type} {P : α → Prop} {Q : β → Prop} {E : ε → Prop}

structure Outcome (x : Except ε α) (P : α → Prop) (E : ε → Prop) : Prop where
  of_ok : ∀ {a : α}, x = .ok a → P a
  of_error : ∀ {e : ε}, x = .error e → E e

namespace Outcome

theorem ok {a : α} (h : P a) : Outcome (.ok a : Except ε α) P E :=
  ⟨fun he => by cases he; exact h, (by cases ·)⟩

theorem error {e : ε} (h : E e) : Outcome (.error e : Except ε α) P E :=
  ⟨(by cases ·), fun he => by cases he; exact h⟩

theorem bind {x : Except ε α} {f : α → Except ε β} (hx : Outcome x P E)
    (hf : ∀ a, P a → Outcome (f a) Q E) : Outcome (x >>= f) Q E := by
  cases x with
  | error e => exact error (hx.of_error rfl)
  | ok a => exact hf a (hx.of_ok rfl)

theorem ok_bind {a : α} {f : α → Except ε β} (h : Outcome (f a) Q E) :
    Outcome (.ok a >>= f) Q E := h

end Outcome

/-- A returned value goes on to the rest of the computation. -/
theorem ok_bind (a : α) (f : α → Except ε β) : (Except.ok a >>= f) = f a := rfl

/-- A computation that succeeds through a bind succeeded in both halves. -/
theorem bind_ok {x : Except ε α} {f : α → Except ε β} {b : β} (h : (x >>= f) = .ok b) :
    ∃ a, x = .ok a ∧ f a = .ok b := by
  cases x with
  | error e => cases h
  | ok a => exact ⟨a, rfl, h⟩

/-- A value seen through a map was returned. -/
theorem ok_of_map {x : Except ε α} {f : α → β} {b : β} (h : x.map f = .ok b) :
    ∃ a, x = .ok a ∧ f a = b := by
  cases x with
  | error e => cases h
  | ok a => exact ⟨a, rfl, Except.ok.inj h⟩

/-- A failure is seen through a map. -/
theorem error_of_map {x : Except ε α} {f : α → β} {e : ε} (h : x.map f = .error e) :
    x = .error e := by
  cases x with
  | error e' => exact congrArg Except.error (Except.error.inj h)
  | ok a => cases h

end RyanNetwork.Lib

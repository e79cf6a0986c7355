import Mathlib.Data.List.Basic

/-!
# Labelled runs and their invariants

A system is given by one relation `R s a t`: label `a` takes state `s` to state
`t`. A run is a finite chain of such steps. Guards belong to `R`, so a run
whose steps all meet a further condition is a run of a smaller relation.
-/
namespace RyanNetwork.Lib

set_option autoImplicit false

variable {σ α : Type*} {R S : σ → α → σ → Prop}

/-- A finite chain of labelled steps. -/
inductive Run (R : σ → α → σ → Prop) : σ → List α → σ → Prop where
  | nil (s : σ) : Run R s [] s
  | cons {s t u : σ} {a : α} {as : List α} : R s a t → Run R t as u → Run R s (a :: as) u

namespace Run

theorem single {s t : σ} {a : α} (h : R s a t) : Run R s [a] t := .cons h (.nil t)

theorem append {s t u : σ} {as bs : List α} (h : Run R s as t) (h' : Run R t bs u) :
    Run R s (as ++ bs) u := by
  induction h with
  | nil => exact h'
  | cons hs _ ih => exact .cons hs (ih h')

theorem snoc {s t u : σ} {as : List α} {a : α} (h : Run R s as t) (h' : R t a u) :
    Run R s (as ++ [a]) u := h.append (single h')

/-- A run splits at every point of its label list. -/
theorem split {s u : σ} {as bs : List α} (h : Run R s (as ++ bs) u) :
    ∃ t, Run R s as t ∧ Run R t bs u := by
  induction as generalizing s with
  | nil => exact ⟨s, .nil s, h⟩
  | cons a as ih =>
    cases h with
    | cons hs ht =>
      obtain ⟨t, h1, h2⟩ := ih ht
      exact ⟨t, .cons hs h1, h2⟩

/-- What every step preserves, every run preserves. -/
theorem invariant {P : σ → Prop} (hstep : ∀ s a t, P s → R s a t → P t)
    {s t : σ} {as : List α} (h : Run R s as t) (hs : P s) : P t := by
  induction h with
  | nil => exact hs
  | cons ha _ ih => exact ih (hstep _ _ _ hs ha)

/-- A run of a relation is a run of every weaker one. -/
theorem mono (hle : ∀ s a t, R s a t → S s a t) {s t : σ} {as : List α} (h : Run R s as t) :
    Run S s as t := by
  induction h with
  | nil s => exact .nil s
  | cons ha _ ih => exact .cons (hle _ _ _ ha) ih

/-- When every step of a run has a property exactly if every step meets a condition:
a step that meets it keeps the invariant and has the property, one that does not
lacks the property. -/
theorem steps_iff {I : σ → Prop} {C : σ → α → Prop} {Q : σ → α → σ → Prop}
    (hdet : ∀ s a t t', R s a t → R s a t' → t = t')
    (hgood : ∀ s a t, I s → R s a t → C s a → I t ∧ Q s a t)
    (hbad : ∀ s a t, I s → R s a t → ¬C s a → ¬Q s a t)
    {s t : σ} {as : List α} (h : Run R s as t) (hs : I s) :
    (∀ pre a post u v, as = pre ++ a :: post → Run R s pre u → R u a v → Q u a v) ↔
      ∀ pre a post u, as = pre ++ a :: post → Run R s pre u → C u a := by
  induction h with
  | nil s =>
    constructor
    · intro _ pre a post u he
      simp at he
    · intro _ pre a post u v he
      simp at he
  | @cons s v w b bs hb hrest ih =>
    constructor
    · intro hall
      have hC : C s b := by
        by_contra hn
        exact hbad s b v hs hb hn (hall [] b bs s v rfl (.nil s) hb)
      have htail := (ih (hgood s b v hs hb hC).1).mp fun pre a post u x he hr hx =>
        hall (b :: pre) a post u x (by rw [he]; rfl) (.cons hb hr) hx
      intro pre a post u he hr
      cases hr with
      | nil =>
        cases he
        exact hC
      | cons h1 h2 =>
        cases he
        cases hdet _ _ _ _ h1 hb
        exact htail _ a post u rfl h2
    · intro hall
      obtain ⟨hv, hQ⟩ := hgood s b v hs hb (hall [] b bs s rfl (.nil s))
      have htail := (ih hv).mpr fun pre a post u he hr =>
        hall (b :: pre) a post u (by rw [he]; rfl) (.cons hb hr)
      intro pre a post u x he hr hx
      cases hr with
      | nil =>
        cases he
        cases hdet _ _ _ _ hx hb
        exact hQ
      | cons h1 h2 =>
        cases he
        cases hdet _ _ _ _ h1 hb
        exact htail _ a post u x rfl h2 hx

/-- Where every step is guarded by a condition, the condition holds before each of them. -/
theorem guarded {C : σ → α → Prop} (hdet : ∀ s a t t', R s a t → R s a t' → t = t')
    {s t : σ} {as : List α} (h : Run (fun s a t => R s a t ∧ C s a) s as t) :
    ∀ pre a post u, as = pre ++ a :: post → Run R s pre u → C u a := by
  induction h with
  | nil s =>
    intro pre a post u he
    simp at he
  | cons hb _ ih =>
    intro pre a post u he hr
    cases hr with
    | nil =>
      cases he
      exact hb.2
    | cons h1 h2 =>
      cases he
      cases hdet _ _ _ _ h1 hb.1
      exact ih _ a post u rfl h2

/-- Performing labels one after the other, each only where its guard holds. -/
def exec {ε : Type*} (G : σ → α → Prop) [∀ s a, Decidable (G s a)] (f : σ → α → Except ε σ)
    (s : σ) : List α → Option σ
  | [] => some s
  | a :: as =>
    if G s a then
      match f s a with
      | .ok t => exec G f t as
      | .error _ => none
    else none

theorem of_exec {ε : Type*} {G : σ → α → Prop} [∀ s a, Decidable (G s a)]
    {f : σ → α → Except ε σ} {s t : σ} {as : List α} (h : exec G f s as = some t) :
    Run (fun s a t => G s a ∧ f s a = .ok t) s as t := by
  induction as generalizing s with
  | nil =>
    cases h
    exact .nil _
  | cons a as ih =>
    simp only [exec] at h
    split at h
    · rename_i hg
      split at h
      · rename_i u hu
        exact .cons ⟨hg, hu⟩ (ih h)
      · cases h
    · cases h

end Run

end RyanNetwork.Lib

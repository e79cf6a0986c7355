import Mathlib.Data.Finset.Insert

/-!
# A timing wheel

A wheel is a list of buckets. An element is put into the last bucket; each turn drops the
first bucket and appends an empty one. What matters about an element is how many turns it
has left, that is, the position of the last bucket that holds it.
-/
namespace RyanNetwork.Lib.Wheel

set_option autoImplicit false

variable {κ : Type*} [DecidableEq κ]

/-- The element goes into the last bucket. -/
def touch (c : κ) : List (Finset κ) → List (Finset κ)
  | [] => []
  | [b] => [insert c b]
  | b :: b' :: w => b :: touch c (b' :: w)

/-- The first bucket is dropped, an empty one comes last. -/
def turn : List (Finset κ) → List (Finset κ)
  | [] => []
  | _ :: w => w ++ [∅]

/-- How many turns the element has left; none if no bucket holds it. -/
def left (c : κ) : List (Finset κ) → Nat
  | [] => 0
  | b :: w => if 0 < left c w then left c w + 1 else if c ∈ b then 1 else 0

variable {c d : κ} {b : Finset κ} {w : List (Finset κ)}

theorem length_touch (c : κ) (w : List (Finset κ)) : (touch c w).length = w.length := by
  fun_induction touch c w with
  | case1 => rfl
  | case2 b => rfl
  | case3 b b' w ih =>
    rw [List.length_cons, ih]
    rfl

theorem touch_snoc (c : κ) (w : List (Finset κ)) (b : Finset κ) :
    touch c (w ++ [b]) = w ++ [insert c b] := by
  induction w with
  | nil => rfl
  | cons b' w ih =>
    obtain ⟨b'', w', hw⟩ := List.exists_cons_of_ne_nil (List.append_ne_nil_of_right_ne_nil w
      (List.cons_ne_nil b []))
    rw [List.cons_append, hw, touch, ← hw, ih]
    rfl

omit [DecidableEq κ] in
theorem length_turn (w : List (Finset κ)) : (turn w).length = w.length := by
  cases w with
  | nil => rfl
  | cons b w => simp [turn]

theorem left_pos_iff : 0 < left c w ↔ ∃ b ∈ w, c ∈ b := by
  induction w with
  | nil => simp [left]
  | cons b w ih =>
    rw [left, List.exists_mem_cons_iff, ← ih]
    split
    · rename_i h
      exact ⟨fun _ => .inr h, fun _ => Nat.succ_pos _⟩
    · rename_i h
      simp only [h, or_false]
      split
      · simp [*]
      · simp [*]

/-- The first bucket does not count beyond one turn. -/
theorem left_tail (c : κ) (b : Finset κ) (w : List (Finset κ)) : left c w = left c (b :: w) - 1 := by
  rw [left]
  split
  · omega
  · split
    · omega
    · omega

theorem left_snoc_empty (c : κ) (w : List (Finset κ)) : left c (w ++ [∅]) = left c w := by
  induction w with
  | nil => simp [left]
  | cons b w ih => rw [List.cons_append, left, ih, left]

theorem left_turn (c : κ) (w : List (Finset κ)) : left c (turn w) = left c w - 1 := by
  cases w with
  | nil => rfl
  | cons b w => rw [turn, left_snoc_empty, left_tail c b w]

theorem left_touch_self (h : w ≠ []) : left c (touch c w) = w.length := by
  fun_induction touch c w with
  | case1 => exact absurd rfl h
  | case2 b => simp [left]
  | case3 b b' w ih =>
    have hih := ih (List.cons_ne_nil b' w)
    rw [left, hih, if_pos (by simp), List.length_cons (a := b)]

theorem left_touch_of_ne (h : d ≠ c) : left d (touch c w) = left d w := by
  fun_induction touch c w with
  | case1 => rfl
  | case2 b => simp [left, h]
  | case3 b b' w ih => rw [left, ih, ← left]

end RyanNetwork.Lib.Wheel

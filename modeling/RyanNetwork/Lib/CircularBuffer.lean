import Mathlib.Data.List.Basic

/-!
# `boost::circular_buffer`

The operations of a circular buffer, and what its documentation says of them. `elements` are
the elements from `begin()` to `end()`.
-/
namespace RyanNetwork.Lib

set_option autoImplicit false

/-- `modifyBack` changes the last element through the reference that `back()` returns. -/
structure CircularBuffer (β α : Type*) where
  new : Nat → β
  resize : β → Nat → α → β
  modifyBack : β → (α → α) → β
  pushBack : β → α → β
  elements : β → List α
  capacity : β → Nat

namespace CircularBuffer

variable {β α : Type*}

/-- `resize` appends copies of the item; `push_back` on a full buffer removes the first
element. -/
structure Documented (B : CircularBuffer β α) : Prop where
  elements_new : ∀ n, B.elements (B.new n) = []
  capacity_new : ∀ n, B.capacity (B.new n) = n
  elements_resize : ∀ b n item, (B.elements b).length ≤ n →
    B.elements (B.resize b n item) =
      B.elements b ++ List.replicate (n - (B.elements b).length) item
  capacity_resize : ∀ b n item, n ≤ B.capacity b → B.capacity (B.resize b n item) = B.capacity b
  elements_modifyBack : ∀ b f xs x, B.elements b = xs ++ [x] →
    B.elements (B.modifyBack b f) = xs ++ [f x]
  capacity_modifyBack : ∀ b f, B.elements b ≠ [] → B.capacity (B.modifyBack b f) = B.capacity b
  elements_pushBack : ∀ b item x xs, B.elements b = x :: xs →
    B.capacity b = (x :: xs).length → B.elements (B.pushBack b item) = xs ++ [item]
  capacity_pushBack : ∀ b item, B.capacity (B.pushBack b item) = B.capacity b

/-- The capacity and the elements themselves. -/
def bounded (α : Type*) : CircularBuffer (Nat × List α) α where
  new n := (n, [])
  resize b n item :=
    (max b.1 n, if n ≤ b.2.length then b.2.take n else b.2 ++ List.replicate (n - b.2.length) item)
  modifyBack b f := (b.1, b.2.dropLast ++ (b.2.getLast?.map f).toList)
  pushBack b item :=
    (b.1, if b.1 = 0 then b.2 else if b.1 ≤ b.2.length then b.2.tail ++ [item] else b.2 ++ [item])
  elements b := b.2
  capacity b := b.1

theorem documented_bounded (α : Type*) : (bounded α).Documented where
  elements_new _ := rfl
  capacity_new _ := rfl
  elements_resize b n item hle := by
    have hsize : b.2.length ≤ n := hle
    show (if n ≤ b.2.length then b.2.take n else _) = b.2 ++ _
    split
    · have hn : n = b.2.length := by omega
      rw [hn, List.take_length]
      show b.2 = b.2 ++ List.replicate (b.2.length - b.2.length) item
      rw [Nat.sub_self, List.replicate_zero, List.append_nil]
    · rfl
  capacity_resize b n _ hle := Nat.max_eq_left hle
  elements_modifyBack b f xs x hb := by
    have hlist : b.2 = xs ++ [x] := hb
    show b.2.dropLast ++ (b.2.getLast?.map f).toList = _
    rw [hlist, List.dropLast_concat, List.getLast?_concat]
    rfl
  capacity_modifyBack _ _ _ := rfl
  elements_pushBack b item x xs hb hfull := by
    have hlist : b.2 = x :: xs := hb
    have hcap : b.1 = (x :: xs).length := hfull
    show (if b.1 = 0 then b.2 else if b.1 ≤ b.2.length then b.2.tail ++ [item] else _) = _
    rw [if_neg (by simp [hcap]), hlist, if_pos (Nat.le_of_eq hcap)]
    rfl
  capacity_pushBack _ _ := rfl

end CircularBuffer

end RyanNetwork.Lib

import Mathlib.Data.List.Basic
import Mathlib.Data.List.Perm.Basic

/-!
# Removal by swapping with the last element

The element at one place of a list is replaced by the last one, which is then dropped from
the end. What is left are the other elements, of which at most one has moved.
-/
namespace RyanNetwork.Lib

set_option autoImplicit false

variable {α : Type}

def swapErase (l : List α) (k : Nat) (last : α) : List α := (l.set k last).dropLast

theorem length_swapErase (l : List α) (k : Nat) (last : α) :
    (swapErase l k last).length = l.length - 1 := by
  unfold swapErase
  rw [List.length_dropLast, List.length_set]

theorem getElem?_swapErase {l : List α} {last : α} (k m : Nat) (hm : m < l.length - 1) :
    (swapErase l k last)[m]? = if m = k then some last else l[m]? := by
  unfold swapErase
  rw [List.getElem?_dropLast, List.length_set, if_pos hm]
  by_cases he : m = k
  · rw [if_pos he, he, List.getElem?_set_self (by omega)]
  · rw [if_neg he, List.getElem?_set_ne (Ne.symm he)]

/-- Only the element at the place is lost. -/
theorem perm_swapErase {l : List α} {k : Nat} {x last : α} (hk : l[k]? = some x)
    (hlast : l.getLast? = some last) : l.Perm (x :: swapErase l k last) := by
  obtain ⟨front, rfl⟩ := List.getLast?_eq_some_iff.mp hlast
  have hlt := (List.getElem?_eq_some_iff.mp hk).1
  rw [List.length_append, List.length_singleton] at hlt
  have hparts : (front ++ [last]).set k last = front.set k last ++ [last] ∧
      front[k]?.getD last = x := by
    by_cases hfront : k < front.length
    · rw [List.getElem?_append_left hfront] at hk
      rw [hk]
      exact ⟨List.set_append_left _ _ hfront, rfl⟩
    · have hend : k = front.length := by omega
      subst hend
      rw [List.getElem?_concat_length] at hk
      rw [List.set_append_right _ _ (Nat.le_refl _), List.getElem?_eq_none (Nat.le_refl _),
        List.set_eq_of_length_le (Nat.le_refl _), Nat.sub_self]
      exact ⟨rfl, Option.some.inj hk⟩
  have hperm := List.getD_set_perm_cons front k last
  rw [hparts.2] at hperm
  unfold swapErase
  rw [hparts.1, List.dropLast_concat]
  exact (List.perm_append_singleton last front).trans hperm.symm

end RyanNetwork.Lib

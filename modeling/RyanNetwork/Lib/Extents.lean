import Mathlib.Data.List.Basic
import Mathlib.Data.List.Pairwise

/-!
# Extents of memory

An extent is a number of consecutive addresses. An allocator owns a list of them that are
disjoint from each other; the address of one identifies it.
-/
namespace RyanNetwork.Lib

set_option autoImplicit false

structure Extent where
  addr : Nat
  size : Nat
  deriving DecidableEq, Repr

namespace Extent

def Disjoint (a b : Extent) : Prop := a.addr + a.size ≤ b.addr ∨ b.addr + b.size ≤ a.addr

def Within (a b : Extent) : Prop := b.addr ≤ a.addr ∧ a.addr + a.size ≤ b.addr + b.size

instance (a b : Extent) : Decidable (a.Disjoint b) :=
  inferInstanceAs (Decidable (_ ∨ _))

instance (a b : Extent) : Decidable (a.Within b) :=
  inferInstanceAs (Decidable (_ ∧ _))

theorem Disjoint.symm {a b : Extent} (h : a.Disjoint b) : b.Disjoint a := h.elim Or.inr Or.inl

/-- Parts of disjoint extents are disjoint. -/
theorem Disjoint.parts {a b c d : Extent} (h : c.Disjoint d) (ha : a.Within c)
    (hb : b.Within d) : a.Disjoint b := by
  unfold Disjoint Within at *
  omega

theorem Disjoint.addr_ne {a b : Extent} (h : a.Disjoint b) (ha : 0 < a.size) (hb : 0 < b.size) :
    a.addr ≠ b.addr := by
  unfold Disjoint at h
  omega

/-- Without the extent at an address, what is left are the others. -/
theorem eraseP_perm {e : Extent} {es rest : List Extent} (h : es.Perm (e :: rest))
    (hne : ∀ r ∈ rest, r.addr ≠ e.addr) : (es.eraseP (·.addr = e.addr)).Perm rest := by
  have he : e ∈ es := h.mem_iff.mpr List.mem_cons_self
  obtain ⟨a, l₁, l₂, -, ha, hes, herase⟩ :=
    List.exists_of_eraseP (p := fun x : Extent => x.addr = e.addr) he (by simp)
  have hae : a = e := by
    have hmem : a ∈ e :: rest := h.mem_iff.mp (by rw [hes]; simp)
    rcases List.mem_cons.mp hmem with hae | hr
    · exact hae
    · exact absurd (of_decide_eq_true ha) (hne a hr)
  rw [herase]
  apply List.Perm.cons_inv (a := e)
  rw [hes, hae] at h
  exact List.perm_middle.symm.trans h

end Extent

end RyanNetwork.Lib

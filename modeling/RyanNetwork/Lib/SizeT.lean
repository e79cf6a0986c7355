import Mathlib.Algebra.Group.Int.Defs
import Mathlib.Algebra.Group.Nat.Defs
import Mathlib.Data.Int.Basic

/-!
# Unsigned 64-bit arithmetic over natural numbers

`size_t` values are natural numbers below `2^64`. Sums and differences are
reduced modulo `2^64`; the conversion to a 32-bit `int` keeps the low 32 bits
in two's complement, and the conversion back is modulo `2^64` again. Each
operation comes with the bound under which it is the operation on `Nat`; they
are irreducible, since unfolding a reduction modulo `2^64` never helps a proof.
-/
namespace RyanNetwork.Lib.SizeT

set_option autoImplicit false

@[irreducible] def add (a b : Nat) : Nat := (a + b) % 2 ^ 64

@[irreducible] def sub (a b : Nat) : Nat := (a + 2 ^ 64 - b) % 2 ^ 64

/-- `static_cast<int>` of a `size_t`. -/
@[irreducible] def toInt (n : Nat) : Int := (n : Int).bmod (2 ^ 32)

/-- The `size_t` an `int` becomes in mixed arithmetic. -/
@[irreducible] def ofInt (i : Int) : Nat := (i % 2 ^ 64).toNat

theorem add_exact {a b : Nat} (h : a + b < 2 ^ 64) : add a b = a + b := by
  unfold add
  exact Nat.mod_eq_of_lt h

theorem sub_exact {a b : Nat} (hb : b ≤ a) (ha : a < 2 ^ 64) : sub a b = a - b := by
  unfold sub
  omega

theorem ofInt_exact {i : Int} (h0 : 0 ≤ i) (h : i < 2 ^ 64) : (ofInt i : Int) = i := by
  unfold ofInt
  omega

/-- A length keeps its low 32 bits on the trip through `int`; the upper half of them
comes back from a negative number. -/
theorem ofInt_toInt_cases (n : Nat) :
    (n % 2 ^ 32 < 2 ^ 31 ∧ ofInt (toInt n) = n % 2 ^ 32) ∨
      (2 ^ 31 ≤ n % 2 ^ 32 ∧ ofInt (toInt n) + 2 ^ 32 = 2 ^ 64 + n % 2 ^ 32) := by
  unfold ofInt toInt
  rw [Int.bmod_def]
  split
  · omega
  · omega

/-- A length below `2^31` survives the trip. -/
theorem ofInt_toInt {n : Nat} (h : n < 2 ^ 31) : ofInt (toInt n) = n := by
  have hc := ofInt_toInt_cases n
  omega

theorem ofInt_natCast {n : Nat} (h : n < 2 ^ 64) : ofInt n = n := by
  have hn : (ofInt n : Int) = n := ofInt_exact (by omega) (by omega)
  omega

/-- An `int` survives the trip through `size_t`. -/
theorem toInt_ofInt {i : Int} (h0 : -2 ^ 31 ≤ i) (h : i < 2 ^ 31) : toInt (ofInt i) = i := by
  unfold toInt ofInt
  rw [Int.bmod_def]
  split
  · omega
  · omega

/-- An error becomes the largest `size_t`. -/
theorem ofInt_neg_one : ofInt (-1) = 2 ^ 64 - 1 := by
  unfold ofInt
  rfl

end RyanNetwork.Lib.SizeT

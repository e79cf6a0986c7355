import Mathlib.Data.Nat.Log
import Mathlib.Tactic.Linarith
import Mathlib.Tactic.Ring

/-!
# Products of doubles

Finite binary floating-point numbers with 53 bits, rounded to the nearest and to the even
one of two. The exponent has no bounds: overflow and numbers below the normal ones are left
out. A product that is cut down to an integer is the nearest integer to the exact product if
and only if that product falls short of it by at most half of the last bit.
-/
namespace RyanNetwork.Lib

set_option autoImplicit false

/-- `significand * 2 ^ exponent`. -/
structure Double where
  significand : Int
  exponent : Int
  bound : significand.natAbs ≤ 2 ^ 53
  deriving DecidableEq, Repr

namespace Double

/-- The nearest integer to `n / 2 ^ d`, the even one of two. -/
def halfEven (n d : Nat) : Nat :=
  if 2 * (n % 2 ^ d) < 2 ^ d ∨ 2 * (n % 2 ^ d) = 2 ^ d ∧ n / 2 ^ d % 2 = 0 then n / 2 ^ d
  else n / 2 ^ d + 1

/-- The bits that `n` has beyond the 53 of a significand. -/
def excess (n : Nat) : Nat := n.log2 - 52

theorem halfEven_excess_le (n : Nat) : halfEven n (excess n) ≤ 2 ^ 53 := by
  have hlog : n < 2 ^ (n.log2 + 1) := Nat.lt_log2_self
  have hpow : 2 ^ (n.log2 + 1) ≤ 2 ^ 53 * 2 ^ excess n := by
    rw [← Nat.pow_add]
    exact Nat.pow_le_pow_right (by decide) (by unfold excess; omega)
  have hdiv : n / 2 ^ excess n < 2 ^ 53 :=
    (Nat.div_lt_iff_lt_mul (Nat.two_pow_pos _)).mpr (Nat.lt_of_lt_of_le hlog hpow)
  unfold halfEven
  split
  · exact Nat.le_of_lt hdiv
  · exact hdiv

/-- The double nearest to `n * 2 ^ e`. -/
def round (n e : Int) : Double where
  significand := n.sign * halfEven n.natAbs (excess n.natAbs)
  exponent := e + excess n.natAbs
  bound := by
    rw [Int.natAbs_mul, Int.natAbs_natCast]
    have hsign : n.sign.natAbs ≤ 1 := by rw [Int.natAbs_sign]; split <;> decide
    exact (Nat.mul_le_mul hsign (halfEven_excess_le _)).trans (Nat.le_of_eq (Nat.one_mul _))

/-- The product of two doubles. -/
def mul (x y : Double) : Double :=
  round (x.significand * y.significand) (x.exponent + y.exponent)

/-- `static_cast<int64_t>(x)` of a double in the range of `int64_t`. -/
def toInt64 (x : Double) : Int :=
  if 0 ≤ x.exponent then x.significand * 2 ^ x.exponent.toNat
  else x.significand.tdiv (2 ^ (-x.exponent).toNat)

/-- The nearest integer to `n / 2 ^ s`, the greater one of two. -/
def nearest (n s : Nat) : Nat := (2 * n + 2 ^ s) / (2 * 2 ^ s)

/-- `n / 2 ^ s` falls short of `k` by at most half of the last bit that a double has there. -/
def Reaches (n s k : Nat) : Prop := 2 * (k * 2 ^ s) ≤ 2 * n + 2 ^ excess n

theorem excess_lt {n s : Nat} (h : n < 2 ^ (52 + s)) : excess n = 0 ∨ excess n < s := by
  rcases Nat.eq_zero_or_pos n with rfl | hn
  · exact .inl (by decide)
  · have hlog := (Nat.log2_lt (Nat.ne_of_gt hn)).mpr h
    unfold excess
    omega

/-- The product that is cut down is the rounded one. -/
theorem toInt64_round {n s : Nat} (h : n < 2 ^ (52 + s)) :
    (round n (-s)).toInt64 = ((halfEven n (excess n) * 2 ^ excess n / 2 ^ s : Nat) : Int) := by
  have hsig : (round n (-s)).significand = halfEven n (excess n) := by
    rcases Nat.eq_zero_or_pos n with rfl | hn
    · rfl
    · show (n : Int).sign * _ = _
      rw [Int.sign_eq_one_of_pos (Int.natCast_pos.mpr hn), Int.one_mul, Int.natAbs_natCast]
  have hexp : (round n (-s)).exponent = -s + excess n := rfl
  have hle : excess n ≤ s := by
    rcases excess_lt h with hz | hlt
    · omega
    · exact Nat.le_of_lt hlt
  obtain ⟨t, rfl⟩ := Nat.exists_eq_add_of_le hle
  unfold toInt64
  rw [hsig, hexp, Nat.pow_add, Nat.mul_comm, Nat.mul_div_mul_left _ _ (Nat.two_pow_pos _)]
  split
  · have ht : t = 0 := by omega
    subst ht
    simp
  · have ht : (-(-((excess n + t : Nat) : Int) + excess n)).toNat = t := by omega
    rw [ht, Int.tdiv_eq_ediv_of_nonneg (Int.natCast_nonneg _)]
    norm_cast

/-- Rounding moves a number by at most half of its last bit. -/
theorem halfEven_le (n d : Nat) : 2 * (halfEven n d * 2 ^ d) ≤ 2 * n + 2 ^ d := by
  have hdiv := Nat.div_add_mod' n (2 ^ d)
  unfold halfEven
  split
  · omega
  · rw [Nat.add_mul, Nat.one_mul]
    omega

/-- An even multiple of the last bit that is at most half of it away is not rounded below. -/
theorem le_halfEven {n d m : Nat} (hm : 2 * (m * 2 ^ d) ≤ 2 * n + 2 ^ d)
    (heven : d = 0 ∨ m % 2 = 0) :
    m * 2 ^ d ≤ halfEven n d * 2 ^ d := by
  refine Nat.mul_le_mul_right _ ?_
  have hpos := Nat.two_pow_pos d
  have hdiv := Nat.div_add_mod' n (2 ^ d)
  have hmod := Nat.mod_lt n hpos
  have hle : m ≤ n / 2 ^ d + 1 := by
    by_contra hgt
    have hmul := Nat.mul_le_mul_right (2 ^ d) (Nat.lt_of_not_le hgt)
    rw [Nat.succ_mul, Nat.add_mul] at hmul
    omega
  unfold halfEven
  split
  · rename_i hround
    refine Nat.le_of_lt_succ (Nat.lt_of_le_of_ne hle fun heq => ?_)
    rw [heq, Nat.succ_eq_add_one, Nat.add_mul, Nat.one_mul] at hm
    rcases hround with hlt | ⟨htie, hpar⟩
    · omega
    · rcases heven with rfl | heven
      · omega
      · omega
  · exact hle

/-- The nearest integer to a product below `2 ^ 52` comes out if and only if the product
reaches it. -/
theorem toInt64_round_eq_iff {n s : Nat} (h : n < 2 ^ (52 + s)) :
    (round n (-s)).toInt64 = nearest n s ↔ Reaches n s (nearest n s) := by
  rw [toInt64_round h, Int.natCast_inj]
  have hpos := Nat.two_pow_pos s
  have hup := halfEven_le n (excess n)
  have hle : 2 ^ excess n ≤ 2 ^ s := by
    refine Nat.pow_le_pow_right (by decide) ?_
    rcases excess_lt h with hz | hlt
    · omega
    · exact Nat.le_of_lt hlt
  have hhigh : 2 * n + 2 ^ s < (nearest n s + 1) * (2 * 2 ^ s) :=
    Nat.lt_mul_of_div_lt (Nat.lt_succ_self _) (by omega)
  rw [Nat.mul_left_comm, Nat.add_mul, Nat.one_mul] at hhigh
  generalize nearest n s = k at hhigh ⊢
  constructor
  · intro heq
    have hkr := Nat.div_mul_le_self (halfEven n (excess n) * 2 ^ excess n) (2 ^ s)
    rw [heq] at hkr
    unfold Reaches
    omega
  · intro hreach
    have hmul : k * 2 ^ s ≤ halfEven n (excess n) * 2 ^ excess n := by
      rcases excess_lt h with hz | hlt
      · have hone : 2 ^ excess n = 1 := by rw [hz, Nat.pow_zero]
        have hround := le_halfEven (n := n) (d := excess n) (m := k * 2 ^ s)
          (by rw [hone, Nat.mul_one]; rwa [Reaches, hone] at hreach) (.inl hz)
        simpa only [hone, Nat.mul_one] using hround
      · obtain ⟨u, hu⟩ := Nat.exists_eq_add_of_lt hlt
        have hsplit : k * 2 ^ s = 2 * (k * 2 ^ u) * 2 ^ excess n := by
          rw [hu, Nat.pow_succ, Nat.pow_add]
          ring
        rw [hsplit]
        refine le_halfEven ?_ (.inr (Nat.mul_mod_right 2 _))
        rw [← hsplit]
        exact hreach
    refine Nat.div_eq_of_lt_le hmul ?_
    rw [Nat.add_mul, Nat.one_mul]
    omega

end Double

end RyanNetwork.Lib

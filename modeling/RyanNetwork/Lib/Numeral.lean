import Mathlib.Data.List.Basic
import Mathlib.Data.List.Induction
import Mathlib.Data.List.Nodup

/-!
# Positional numerals

A numeral is a word over the characters of a digit system, read from the most significant
digit on. It is canonical if it is not empty and has no zero in front of other digits; then
it is determined by its value.
-/
namespace RyanNetwork.Lib

set_option autoImplicit false

/-- The characters of the digits, from zero on. -/
structure Digits (α : Type) where
  chars : List α
  nodup : chars.Nodup
  two_le : 2 ≤ chars.length

namespace Digits

variable {α : Type} [DecidableEq α] (D : Digits α)

def base : Nat := D.chars.length

/-- The value of a digit. -/
def read (c : α) : Option Nat := if c ∈ D.chars then some (D.chars.idxOf c) else none

/-- One more digit behind a number. -/
def extend (n : Nat) (c : α) : Option Nat := (D.read c).map fun d => D.base * n + d

/-- The value of a word of digits. -/
def parse (text : List α) : Option Nat := text.foldlM D.extend 0

/-- The word is the canonical numeral of the number. -/
structure Canonical (text : List α) (n : Nat) : Prop where
  nonempty : text ≠ []
  noLeadingZero : ∀ c, text.head? = some c → D.read c = some 0 → text = [c]
  value : D.parse text = some n

variable {D}

theorem read_lt {c : α} {d : Nat} (h : D.read c = some d) : d < D.base := by
  unfold read at h
  split at h
  · rename_i hmem
    cases h
    exact List.idxOf_lt_length_iff.mpr hmem
  · cases h

theorem read_injective {c c' : α} {d : Nat} (h : D.read c = some d) (h' : D.read c' = some d) :
    c = c' := by
  unfold read at h h'
  split at h
  · rename_i hmem
    split at h'
    · cases h
      exact (List.idxOf_inj hmem).mp (Option.some.inj h').symm
    · cases h'
  · cases h

theorem parse_snoc (text : List α) (c : α) :
    D.parse (text ++ [c]) = (D.parse text).bind fun n => D.extend n c := by
  unfold parse
  rw [List.foldlM_append]
  simp

/-- A word that begins with another digit than zero is not zero. -/
theorem parse_ne_zero {text : List α} {n : Nat} (hne : text ≠ [])
    (hlead : ∀ c, text.head? = some c → D.read c ≠ some 0) (h : D.parse text = some n) :
    n ≠ 0 := by
  have hbase : 2 ≤ D.base := D.two_le
  induction text using List.reverseRecOn generalizing n with
  | nil => exact absurd rfl hne
  | append_singleton text c ih =>
    rw [parse_snoc] at h
    obtain ⟨m, hm, hextend⟩ := Option.bind_eq_some_iff.mp h
    obtain ⟨d, hd, rfl⟩ := Option.map_eq_some_iff.mp hextend
    by_cases htext : text = []
    · subst htext
      have hd0 : d ≠ 0 := by
        rintro rfl
        exact hlead c rfl hd
      omega
    · have hm0 : m ≠ 0 := by
        refine ih htext (fun first hfirst => hlead first ?_) hm
        rwa [List.head?_append_of_ne_nil _ htext]
      have hpos : 0 < D.base * m := Nat.mul_pos (by omega) (by omega)
      omega

/-- A single digit. -/
theorem canonical_digit {c : α} {d : Nat} (h : D.read c = some d) : D.Canonical [c] d := by
  refine ⟨List.cons_ne_nil _ _, ?_, ?_⟩
  · intro c' hc' _
    rw [Option.some.inj hc']
  · simp [parse, extend, h]

/-- A digit behind the numeral of a number that is not zero. -/
theorem Canonical.snoc {text : List α} {n : Nat} {c : α} {d : Nat} (h : D.Canonical text n)
    (hn : n ≠ 0) (hc : D.read c = some d) : D.Canonical (text ++ [c]) (D.base * n + d) := by
  refine ⟨by simp, ?_, ?_⟩
  · intro first hfirst hzero
    rw [List.head?_append_of_ne_nil _ h.nonempty] at hfirst
    have hvalue := h.value
    rw [h.noLeadingZero first hfirst hzero] at hvalue
    rw [(canonical_digit hzero).value] at hvalue
    exact absurd (Option.some.inj hvalue).symm hn
  · rw [parse_snoc, h.value]
    simp [extend, hc]

/-- The last digit of a canonical numeral, and what stands before it. -/
theorem Canonical.of_snoc {text : List α} {n : Nat} {c : α} (h : D.Canonical (text ++ [c]) n) :
    D.read c = some (n % D.base) ∧
      (text = [] ∧ n / D.base = 0 ∨ D.Canonical text (n / D.base) ∧ n / D.base ≠ 0) := by
  have hbase : 2 ≤ D.base := D.two_le
  have hvalue := h.value
  rw [parse_snoc] at hvalue
  obtain ⟨m, hm, hextend⟩ := Option.bind_eq_some_iff.mp hvalue
  obtain ⟨d, hd, rfl⟩ := Option.map_eq_some_iff.mp hextend
  have hlt := read_lt hd
  rw [Nat.mul_add_mod, Nat.mod_eq_of_lt hlt, Nat.mul_add_div (by omega), Nat.div_eq_of_lt hlt,
    Nat.add_zero]
  refine ⟨hd, ?_⟩
  by_cases htext : text = []
  · rw [htext] at hm
    exact Or.inl ⟨htext, (Option.some.inj hm).symm⟩
  · have hlead : ∀ first, text.head? = some first → D.read first ≠ some 0 := by
      intro first hfirst hzero
      have hall := h.noLeadingZero first (by rwa [List.head?_append_of_ne_nil _ htext]) hzero
      have hlen := congrArg List.length hall
      rw [List.length_append, List.length_singleton] at hlen
      exact htext (List.length_eq_zero_iff.mp (by simpa using hlen))
    have hcanonical : D.Canonical text m :=
      ⟨htext, fun first hfirst hzero => absurd hzero (hlead first hfirst), hm⟩
    refine Or.inr ⟨hcanonical, ?_⟩
    exact parse_ne_zero htext hlead hm

/-- A number has one canonical numeral. -/
theorem Canonical.unique {text text' : List α} {n : Nat} (h : D.Canonical text n)
    (h' : D.Canonical text' n) : text = text' := by
  induction text using List.reverseRecOn generalizing text' n with
  | nil => exact absurd rfl h.nonempty
  | append_singleton text c ih =>
    obtain ⟨rest, c', rfl⟩ := (List.eq_nil_or_concat' text').resolve_left h'.nonempty
    obtain ⟨hread, hbefore⟩ := h.of_snoc
    obtain ⟨hread', hbefore'⟩ := h'.of_snoc
    rw [read_injective hread hread']
    congr 1
    rcases hbefore with ⟨rfl, hzero⟩ | ⟨hcanonical, hpos⟩
    · rcases hbefore' with ⟨rfl, -⟩ | ⟨-, hpos⟩
      · rfl
      · exact absurd hzero hpos
    · rcases hbefore' with ⟨-, hzero⟩ | ⟨hcanonical', -⟩
      · exact absurd hzero hpos
      · exact ih hcanonical hcanonical'

end Digits

end RyanNetwork.Lib

import Mathlib.Data.List.Basic

/-!
# Lines ended by a two-symbol terminator

A stream of lines, each followed by the terminator `cr, lf`, and the search for the
first terminator. A prefix of the stream is a number of complete lines followed by
the beginning of one that the search does not see.
-/
namespace RyanNetwork.Lib.Lines

set_option autoImplicit false

variable {α : Type} {cr lf : α}

/-- The lines as they stand in the stream. -/
def wire (cr lf : α) (ls : List (List α)) : List α := ls.flatMap fun l => l ++ [cr, lf]

/-- How many of the lines lie, with their terminators, within the first `k` symbols. -/
def completeLines : List (List α) → Nat → Nat
  | [], _ => 0
  | l :: ls, k => if l.length + 2 ≤ k then completeLines ls (k - (l.length + 2)) + 1 else 0

theorem wire_cons (l : List α) (ls : List (List α)) :
    wire cr lf (l :: ls) = l ++ cr :: lf :: wire cr lf ls := by
  simp [wire]

theorem wire_append (ls ms : List (List α)) :
    wire cr lf (ls ++ ms) = wire cr lf ls ++ wire cr lf ms :=
  List.flatMap_append

theorem completeLines_zero (ls : List (List α)) : completeLines ls 0 = 0 := by
  cases ls with
  | nil => rfl
  | cons l ls => simp [completeLines]

theorem completeLines_le (ls : List (List α)) (k : Nat) : completeLines ls k ≤ ls.length := by
  induction ls generalizing k with
  | nil => exact Nat.le_refl _
  | cons l ls ih =>
    unfold completeLines
    split
    · exact Nat.succ_le_succ (ih _)
    · exact Nat.zero_le _

theorem completeLines_mono (ls : List (List α)) {k k' : Nat} (h : k ≤ k') :
    completeLines ls k ≤ completeLines ls k' := by
  induction ls generalizing k k' with
  | nil => exact Nat.le_refl _
  | cons l ls ih =>
    unfold completeLines
    split
    · rw [if_pos (by omega)]
      exact Nat.succ_le_succ (ih (by omega))
    · exact Nat.zero_le _

variable [DecidableEq α]

/-- The position of the first terminator. -/
def find (cr lf : α) : List α → Option Nat
  | a :: b :: rest =>
    if a = cr ∧ b = lf then some 0 else (find cr lf (b :: rest)).map (· + 1)
  | _ => none

theorem find_cons_none {a b : α} {l : List α} (h : find cr lf (a :: b :: l) = none) :
    ¬(a = cr ∧ b = lf) ∧ find cr lf (b :: l) = none := by
  simp only [find] at h
  split at h
  · cases h
  · rename_i hnot
    exact ⟨hnot, by simpa using h⟩

/-- After a line without a terminator, the search finds the line's own. -/
theorem find_line (hne : cr ≠ lf) {l : List α} (hl : find cr lf l = none) (rest : List α) :
    find cr lf (l ++ cr :: lf :: rest) = some l.length := by
  induction l with
  | nil => simp [find]
  | cons a l ih =>
    cases l with
    | nil =>
      simp [find, hne]
    | cons b l =>
      obtain ⟨hnot, htail⟩ := find_cons_none hl
      have hi := ih htail
      simp only [List.cons_append, find, hnot, ↓reduceIte] at hi ⊢
      rw [hi]
      rfl

/-- A line without a terminator has none either once its first symbol arrives. -/
theorem find_open (hne : cr ≠ lf) {l : List α} (hl : find cr lf l = none) :
    find cr lf (l ++ [cr]) = none := by
  induction l with
  | nil => rfl
  | cons a l ih =>
    cases l with
    | nil => simp [find, hne]
    | cons b l =>
      obtain ⟨hnot, htail⟩ := find_cons_none hl
      have hi := ih htail
      simp only [List.cons_append, find, hnot, ↓reduceIte] at hi ⊢
      rw [hi]
      rfl

/-- What has no terminator has none in its beginnings. -/
theorem find_take {l : List α} (hl : find cr lf l = none) (k : Nat) :
    find cr lf (l.take k) = none := by
  induction l generalizing k with
  | nil => simpa using hl
  | cons a l ih =>
    cases l with
    | nil =>
      cases k with
      | zero => rfl
      | succ k => simp [find]
    | cons b l =>
      obtain ⟨hnot, htail⟩ := find_cons_none hl
      have hi := ih htail
      cases k with
      | zero => rfl
      | succ k =>
        cases k with
        | zero => rfl
        | succ k =>
          have hk := hi (k + 1)
          simp only [List.take_succ_cons, find, hnot, ↓reduceIte] at hk ⊢
          rw [hk]
          rfl

/-- A proper prefix of a stream that ends with an empty line: its complete lines,
and then the beginning of the next, in which no terminator is found. -/
theorem take_wire (hne : cr ≠ lf) {ls : List (List α)} (hls : ∀ l ∈ ls, find cr lf l = none)
    {k : Nat} (hk : k < (wire cr lf ls ++ [cr, lf]).length) :
    ∃ p, (wire cr lf ls ++ [cr, lf]).take k = wire cr lf (ls.take (completeLines ls k)) ++ p ∧
      find cr lf p = none := by
  induction ls generalizing k with
  | nil =>
    have hk2 : k < 2 := by simpa [wire] using hk
    refine ⟨[cr].take k, ?_, find_take (find_open hne (l := []) rfl) k⟩
    obtain rfl | rfl : k = 0 ∨ k = 1 := by omega
    · rfl
    · rfl
  | cons l ls ih =>
    rw [wire_cons] at hk ⊢
    unfold completeLines
    split
    · rename_i hfit
      obtain ⟨p, hp, hnone⟩ := ih (fun m hm => hls m (List.mem_cons_of_mem _ hm))
        (k := k - (l.length + 2)) (by simp at hk ⊢; omega)
      refine ⟨p, ?_, hnone⟩
      rw [List.take_succ_cons, wire_cons]
      have hsplit : l ++ cr :: lf :: wire cr lf ls ++ [cr, lf] =
          (l ++ [cr, lf]) ++ (wire cr lf ls ++ [cr, lf]) := by simp
      rw [hsplit, List.take_append, List.take_of_length_le (by simp; omega)]
      simp only [List.length_append, List.length_cons, List.length_nil]
      rw [hp]
      simp
    · rename_i hfit
      refine ⟨(l ++ [cr]).take k, ?_, find_take (find_open hne (hls l List.mem_cons_self)) k⟩
      have hsplit : l ++ cr :: lf :: wire cr lf ls ++ [cr, lf] =
          (l ++ [cr]) ++ (lf :: wire cr lf ls ++ [cr, lf]) := by simp
      rw [hsplit, List.take_append_of_le_length (by simp; omega)]
      simp [wire]

/-- The beginning of a line is at most the line and the first symbol of its terminator. -/
theorem length_le_of_find_none (hne : cr ≠ lf) {p q l rest : List α} (hp : find cr lf p = none)
    (hl : find cr lf l = none) (h : p ++ q = l ++ cr :: lf :: rest) : p.length ≤ l.length + 1 := by
  by_contra hlong
  have htake : (p ++ q).take (l.length + 2) = l ++ [cr, lf] := by
    rw [h, List.take_append, List.take_of_length_le (by omega)]
    simp
  rw [List.take_append_of_le_length (by omega)] at htake
  have hnone := find_take hp (l.length + 2)
  rw [htake, find_line hne hl] at hnone
  cases hnone

/-! ## Splitting into lines -/

/-- The complete lines of a stream, and the beginning of the next one. -/
def split (cr lf : α) : List α → List (List α) × List α
  | [] => ([], [])
  | [a] => ([], [a])
  | a :: b :: rest =>
    if a = cr ∧ b = lf then ([] :: (split cr lf rest).1, (split cr lf rest).2)
    else match split cr lf (b :: rest) with
      | (l :: ls, r) => ((a :: l) :: ls, r)
      | ([], r) => ([], a :: r)

theorem split_of_find_none {s : List α} (h : find cr lf s = none) : split cr lf s = ([], s) := by
  induction s with
  | nil => rfl
  | cons a s ih =>
    cases s with
    | nil => rfl
    | cons b s =>
      obtain ⟨hnot, htail⟩ := find_cons_none h
      have hi := ih htail
      simp only [split, if_neg hnot, hi]

/-- A terminator ends a line that has none before it. -/
theorem split_line (hne : cr ≠ lf) {l : List α} (hl : find cr lf l = none) (rest : List α) :
    split cr lf (l ++ cr :: lf :: rest) = (l :: (split cr lf rest).1, (split cr lf rest).2) := by
  induction l with
  | nil => simp [split]
  | cons a l ih =>
    cases l with
    | nil => simp [split, hne]
    | cons b l =>
      obtain ⟨hnot, htail⟩ := find_cons_none hl
      have hi := ih htail
      simp only [List.cons_append] at hi ⊢
      simp only [split, if_neg hnot, hi]

/-- Either there is no terminator, or the first one ends a line. -/
theorem find_cases (s : List α) : find cr lf s = none ∨
    ∃ l rest, s = l ++ cr :: lf :: rest ∧ find cr lf l = none := by
  induction s with
  | nil => exact Or.inl rfl
  | cons a s ih =>
    cases s with
    | nil => exact Or.inl rfl
    | cons b s =>
      by_cases hab : a = cr ∧ b = lf
      · exact Or.inr ⟨[], s, by rw [hab.1, hab.2]; rfl, rfl⟩
      · rcases ih with hnone | ⟨l, rest, hs, hl⟩
        · refine Or.inl ?_
          simp only [find, if_neg hab, hnone, Option.map_none]
        · refine Or.inr ⟨a :: l, rest, by rw [hs]; rfl, ?_⟩
          cases l with
          | nil => rfl
          | cons c l =>
            cases hs
            simp only [find, if_neg hab, hl, Option.map_none]

/-- The stream is its complete lines followed by the beginning of the next. -/
theorem split_spec (hne : cr ≠ lf) (s : List α) :
    wire cr lf (split cr lf s).1 ++ (split cr lf s).2 = s ∧
      (∀ l ∈ (split cr lf s).1, find cr lf l = none) ∧ find cr lf (split cr lf s).2 = none := by
  induction hn : s.length using Nat.strongRecOn generalizing s with
  | _ n ih =>
    obtain hnone | ⟨l, rest, hs, hl⟩ : find cr lf s = none ∨
        ∃ l rest, s = l ++ cr :: lf :: rest ∧ find cr lf l = none := find_cases s
    · rw [split_of_find_none hnone]
      exact ⟨rfl, by simp, hnone⟩
    · have hlt : rest.length < n := by
        rw [← hn, hs, List.length_append, List.length_cons, List.length_cons]
        omega
      obtain ⟨hwire, hlines, hrest⟩ := ih rest.length hlt rest rfl
      rw [hs, split_line hne hl]
      refine ⟨?_, ?_, hrest⟩
      · rw [wire_cons, List.append_assoc, List.cons_append, List.cons_append, hwire]
      · intro m hm
        rcases List.mem_cons.mp hm with rfl | hm
        · exact hl
        · exact hlines m hm

theorem split_wire (hne : cr ≠ lf) {ls : List (List α)} (hls : ∀ l ∈ ls, find cr lf l = none)
    (s : List α) :
    split cr lf (wire cr lf ls ++ s) = (ls ++ (split cr lf s).1, (split cr lf s).2) := by
  induction ls with
  | nil => rfl
  | cons l ls ih =>
    rw [wire_cons, List.append_assoc, List.cons_append, List.cons_append,
      split_line hne (hls l List.mem_cons_self), ih fun m hm => hls m (List.mem_cons_of_mem _ hm)]
    rfl

/-- What arrives later only completes the beginning of the next line. -/
theorem split_append (hne : cr ≠ lf) (s t : List α) :
    split cr lf (s ++ t) = ((split cr lf s).1 ++ (split cr lf ((split cr lf s).2 ++ t)).1,
      (split cr lf ((split cr lf s).2 ++ t)).2) := by
  obtain ⟨hwire, hlines, -⟩ := split_spec hne s
  rw [← split_wire hne hlines, ← List.append_assoc, hwire]

end RyanNetwork.Lib.Lines

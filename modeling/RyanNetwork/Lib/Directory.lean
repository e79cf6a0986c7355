import Mathlib.Data.List.Nodup

/-!
# Files opened for appending

A directory lists its files in the order in which they were created. What is written through
a stream that was opened for appending goes behind what the file of that name holds; a file
that is not there yet is created.
-/
namespace RyanNetwork.Lib.Directory

set_option autoImplicit false

/-- A file, or what one opening adds to it: `time` is when it was created, or opened. -/
structure File (ν α : Type*) where
  name : ν
  time : Nat
  contents : List α
  deriving DecidableEq, Repr

variable {ν α : Type*}

def names (disk : List (File ν α)) : List ν := disk.map File.name

/-- Every opening creates its file. -/
def AllNew (disk opened : List (File ν α)) : Prop :=
  (names opened).Nodup ∧ (names disk).Disjoint (names opened)

theorem allNew_nil (disk : List (File ν α)) : AllNew disk [] :=
  ⟨List.nodup_nil, List.disjoint_nil_right _⟩

theorem AllNew.of_names {disk opened opened' : List (File ν α)} (h : AllNew disk opened)
    (hnames : names opened' = names opened) : AllNew disk opened' := by
  unfold AllNew
  rw [hnames]
  exact h

variable [DecidableEq ν]

def append (disk : List (File ν α)) (f : File ν α) : List (File ν α) :=
  if f.name ∈ names disk then
    disk.map fun d => if d.name = f.name then { d with contents := d.contents ++ f.contents } else d
  else disk ++ [f]

/-- One opening after the other. -/
def appendAll (disk opened : List (File ν α)) : List (File ν α) := opened.foldl append disk

theorem appendAll_of_allNew {disk opened : List (File ν α)} (h : AllNew disk opened) :
    appendAll disk opened = disk ++ opened := by
  induction opened generalizing disk with
  | nil => exact (List.append_nil disk).symm
  | cons f fs ih =>
    obtain ⟨hnodup, hdisjoint⟩ := h
    obtain ⟨hf, hfs⟩ := List.nodup_cons.mp hnodup
    obtain ⟨hnew, hrest⟩ := List.disjoint_cons_right.mp hdisjoint
    have happend : append disk f = disk ++ [f] := if_neg hnew
    have hall : AllNew (disk ++ [f]) fs := by
      refine ⟨hfs, ?_⟩
      have hnames : names (disk ++ [f]) = names disk ++ [f.name] := List.map_append
      rw [hnames]
      exact List.disjoint_append_left.mpr ⟨hrest, List.singleton_disjoint.mpr hf⟩
    have hrec := ih hall
    rw [List.append_assoc] at hrec
    rw [appendAll, List.foldl_cons, happend]
    exact hrec

/-- One more opening, of a name that is not on the disk. -/
theorem AllNew.snoc {disk opened : List (File ν α)} {f : File ν α} (h : AllNew disk opened)
    (hnew : f.name ∉ names (appendAll disk opened)) : AllNew disk (opened ++ [f]) := by
  rw [appendAll_of_allNew h] at hnew
  have hsplit : names (disk ++ opened) = names disk ++ names opened := List.map_append
  have hsnoc : names (opened ++ [f]) = names opened ++ [f.name] := List.map_append
  rw [hsplit, List.mem_append, not_or] at hnew
  unfold AllNew
  rw [hsnoc]
  refine ⟨?_, List.disjoint_append_right.mpr ⟨h.2, List.disjoint_singleton.mpr hnew.1⟩⟩
  refine List.nodup_append.mpr ⟨h.1, List.nodup_singleton _, ?_⟩
  intro a ha b hb hab
  rw [hab, List.mem_singleton.mp hb] at ha
  exact hnew.2 ha

end RyanNetwork.Lib.Directory

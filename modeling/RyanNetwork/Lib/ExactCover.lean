import Mathlib.Data.Finset.Basic
import Mathlib.Data.Finset.SDiff
import Mathlib.Data.Finset.Image
import Mathlib.Data.Finset.Card
import Mathlib.Data.List.Perm.Basic

/-!
# Exact covers

Every option stands for a set of items. A list of options covers a set exactly if their item
sets are disjoint and make up the set. Whoever looks for an exact cover may take any item and
has to try the options with that item only: the search does so, item by item, in a given
order.
-/
namespace RyanNetwork.Lib

set_option autoImplicit false

variable {ι ω : Type} {items : ω → Finset ι} {S : Finset ι} {X Y : List ω}
  {i : ι} {o : ω}

structure ExactCover (items : ω → Finset ι) (S : Finset ι) (X : List ω) : Prop where
  disjoint : X.Pairwise fun a b => ∀ i, i ∈ items a → i ∉ items b
  covered : ∀ i, i ∈ S ↔ ∃ o ∈ X, i ∈ items o

namespace ExactCover

theorem nil (items : ω → Finset ι) : ExactCover items ∅ [] := ⟨.nil, by simp⟩

theorem within (h : ExactCover items S X) (ho : o ∈ X) : items o ⊆ S :=
  fun i hi => (h.covered i).mpr ⟨o, ho, hi⟩

theorem perm (h : ExactCover items S X) (hp : X.Perm Y) : ExactCover items S Y := by
  constructor
  · exact h.disjoint.perm hp fun hab i hb ha => hab i ha hb
  · intro i
    rw [h.covered i]
    constructor
    · rintro ⟨o, ho, hi⟩
      exact ⟨o, hp.mem_iff.mp ho, hi⟩
    · rintro ⟨o, ho, hi⟩
      exact ⟨o, hp.mem_iff.mpr ho, hi⟩

/-- Renaming items and options keeps exact covers, as long as no two items get one name. -/
theorem image_iff {κ τ : Type} [DecidableEq κ] {f : ι → κ} {g : τ → ω} {named : τ → Finset κ}
    {Z : List τ} (hf : ∀ i ∈ S, ∀ j ∈ S, f i = f j → i = j)
    (hnamed : ∀ x ∈ Z, named x = (items (g x)).image f) (hsub : ∀ x ∈ Z, items (g x) ⊆ S) :
    ExactCover named (S.image f) Z ↔ ExactCover items S (Z.map g) := by
  have hmem : ∀ x ∈ Z, ∀ i ∈ S, f i ∈ named x ↔ i ∈ items (g x) := by
    intro x hx i hi
    rw [hnamed x hx, Finset.mem_image]
    constructor
    · rintro ⟨j, hj, he⟩
      rwa [← hf j (hsub x hx hj) i hi he]
    · exact fun h => ⟨i, h, rfl⟩
  constructor
  · intro h
    refine ⟨List.pairwise_map.mpr (h.disjoint.imp_of_mem ?_), fun i => ?_⟩
    · intro a b ha hb hab i hi hi'
      have hS := hsub a ha hi
      exact hab (f i) ((hmem a ha i hS).mpr hi) ((hmem b hb i hS).mpr hi')
    · constructor
      · intro hi
        obtain ⟨x, hx, hix⟩ := (h.covered (f i)).mp (Finset.mem_image_of_mem f hi)
        exact ⟨g x, List.mem_map_of_mem hx, (hmem x hx i hi).mp hix⟩
      · rintro ⟨o, ho, hi⟩
        obtain ⟨x, hx, rfl⟩ := List.mem_map.mp ho
        exact hsub x hx hi
  · intro h
    refine ⟨(List.pairwise_map.mp h.disjoint).imp_of_mem ?_, fun k => ?_⟩
    · intro a b ha hb hab k hka hkb
      rw [hnamed a ha, Finset.mem_image] at hka
      obtain ⟨i, hi, rfl⟩ := hka
      exact hab i hi ((hmem b hb i (hsub a ha hi)).mp hkb)
    · rw [Finset.mem_image]
      constructor
      · rintro ⟨i, hi, rfl⟩
        obtain ⟨o, ho, hio⟩ := (h.covered i).mp hi
        obtain ⟨x, hx, rfl⟩ := List.mem_map.mp ho
        exact ⟨x, hx, (hmem x hx i hi).mpr hio⟩
      · rintro ⟨x, hx, hk⟩
        rw [hnamed x hx, Finset.mem_image] at hk
        obtain ⟨i, hi, rfl⟩ := hk
        exact ⟨i, hsub x hx hi, rfl⟩

variable [DecidableEq ι]

/-- One more option for a set from which its items have been taken. -/
theorem cons (ho : items o ⊆ S) (h : ExactCover items (S \ items o) X) :
    ExactCover items S (o :: X) := by
  constructor
  · refine List.pairwise_cons.mpr ⟨?_, h.disjoint⟩
    intro b hb i hi hib
    exact (Finset.mem_sdiff.mp ((h.covered i).mpr ⟨b, hb, hib⟩)).2 hi
  · intro i
    constructor
    · intro hi
      by_cases hio : i ∈ items o
      · exact ⟨o, List.mem_cons_self, hio⟩
      · obtain ⟨b, hb, hib⟩ := (h.covered i).mp (Finset.mem_sdiff.mpr ⟨hi, hio⟩)
        exact ⟨b, List.mem_cons_of_mem o hb, hib⟩
    · rintro ⟨b, hb, hib⟩
      rcases List.mem_cons.mp hb with rfl | hb
      · exact ho hib
      · exact (Finset.mem_sdiff.mp ((h.covered i).mpr ⟨b, hb, hib⟩)).1

theorem tail (h : ExactCover items S (o :: X)) : ExactCover items (S \ items o) X := by
  obtain ⟨hfirst, hrest⟩ := List.pairwise_cons.mp h.disjoint
  refine ⟨hrest, fun i => ?_⟩
  rw [Finset.mem_sdiff, h.covered i]
  constructor
  · rintro ⟨⟨b, hb, hib⟩, hio⟩
    rcases List.mem_cons.mp hb with rfl | hb
    · exact absurd hib hio
    · exact ⟨b, hb, hib⟩
  · rintro ⟨b, hb, hib⟩
    exact ⟨⟨b, List.mem_cons_of_mem o hb, hib⟩, fun hio => hfirst b hb i hio hib⟩

/-- The option that covers a given item, with a cover of the rest. -/
theorem choose (h : ExactCover items S X) (hi : i ∈ S) :
    ∃ o ∈ X, i ∈ items o ∧ ∃ Y, (∀ b ∈ Y, b ∈ X) ∧ ExactCover items (S \ items o) Y := by
  obtain ⟨o, ho, hio⟩ := (h.covered i).mp hi
  obtain ⟨as, bs, rfl⟩ := List.append_of_mem ho
  refine ⟨o, ho, hio, as ++ bs, ?_, (h.perm List.perm_middle).tail⟩
  intro b hb
  exact (List.perm_middle.mem_iff).mpr (List.mem_cons_of_mem o hb)

/-! ## The search -/

/-- Depth-first search: `branch S` are the options to try while the items of `S` are left. -/
def search (items : ω → Finset ι) (branch : Finset ι → List ω) :
    Nat → Finset ι → Option (List ω)
  | 0, _ => none
  | depth + 1, S =>
    if S = ∅ then some []
    else (branch S).findSome? fun o => (search items branch depth (S \ items o)).map (o :: ·)

/-- What is tried are the options with one of the items that are left, and no item besides. -/
def Branching (items : ω → Finset ι) (R : List ω) (T : Finset ι) (branch : Finset ι → List ω) :
    Prop :=
  ∀ S ⊆ T, S.Nonempty → ∃ i ∈ S, ∀ o, o ∈ branch S ↔ o ∈ R ∧ i ∈ items o ∧ items o ⊆ S

variable {R : List ω} {T : Finset ι} {branch : Finset ι → List ω}

theorem card_sdiff_lt (hi : i ∈ S) (hio : i ∈ items o) : (S \ items o).card < S.card := by
  refine Finset.card_lt_card (Finset.ssubset_iff_subset_ne.mpr ⟨Finset.sdiff_subset, ?_⟩)
  intro heq
  rw [← heq] at hi
  exact (Finset.mem_sdiff.mp hi).2 hio

/-- What the search finds is an exact cover. -/
theorem of_search (hb : Branching items R T branch) :
    ∀ (depth : Nat) (S : Finset ι) (X : List ω), S ⊆ T → search items branch depth S = some X →
      (∀ o ∈ X, o ∈ R) ∧ ExactCover items S X := by
  intro depth
  induction depth with
  | zero =>
    intro S X _ hX
    cases hX
  | succ depth ih =>
    intro S X hT hX
    rw [search] at hX
    split at hX
    · rename_i hempty
      cases hX
      rw [hempty]
      exact ⟨by simp, nil items⟩
    · rename_i hne
      obtain ⟨i, _, hbranch⟩ := hb S hT (Finset.nonempty_iff_ne_empty.mpr hne)
      obtain ⟨o, ho, hsome⟩ := List.exists_of_findSome?_eq_some hX
      obtain ⟨Y, hY, rfl⟩ := Option.map_eq_some_iff.mp hsome
      obtain ⟨hR, _, hsub⟩ := (hbranch o).mp ho
      obtain ⟨hall, hcover⟩ := ih _ Y (Finset.sdiff_subset.trans hT) hY
      refine ⟨?_, cons hsub hcover⟩
      intro b hmem
      rcases List.mem_cons.mp hmem with rfl | hmem
      · exact hR
      · exact hall b hmem

/-- If the search finds nothing there is no exact cover. -/
theorem search_ne_none (hb : Branching items R T branch) :
    ∀ (depth : Nat) (S : Finset ι) (X : List ω), S ⊆ T → S.card < depth → (∀ o ∈ X, o ∈ R) →
      ExactCover items S X → search items branch depth S ≠ none := by
  intro depth
  induction depth with
  | zero =>
    intro S X _ hdepth
    omega
  | succ depth ih =>
    intro S X hT hdepth hX hcover hnone
    rw [search] at hnone
    split at hnone
    · cases hnone
    · rename_i hne
      obtain ⟨i, hi, hbranch⟩ := hb S hT (Finset.nonempty_iff_ne_empty.mpr hne)
      obtain ⟨o, ho, hio, Y, hY, hrest⟩ := hcover.choose hi
      have hmem : o ∈ branch S := (hbranch o).mpr ⟨hX o ho, hio, hcover.within ho⟩
      have hlt := card_sdiff_lt hi hio
      have hfail := List.findSome?_eq_none_iff.mp hnone o hmem
      exact ih _ Y (Finset.sdiff_subset.trans hT) (by omega) (fun b hb' => hX b (hY b hb')) hrest
        (Option.map_eq_none_iff.mp hfail)

/-- A depth beyond the number of items does not matter. -/
theorem search_depth (hb : Branching items R T branch) :
    ∀ (depth depth' : Nat) (S : Finset ι), S ⊆ T → S.card < depth → S.card < depth' →
      search items branch depth S = search items branch depth' S := by
  intro depth
  induction depth with
  | zero =>
    intro depth' S _ hdepth
    omega
  | succ depth ih =>
    intro depth' S hT hdepth hdepth'
    cases depth' with
    | zero => omega
    | succ depth' =>
      rw [search, search]
      split
      · rfl
      · rename_i hne
        obtain ⟨i, hi, hbranch⟩ := hb S hT (Finset.nonempty_iff_ne_empty.mpr hne)
        rw [← List.head?_filterMap, ← List.head?_filterMap]
        refine congrArg List.head? (List.filterMap_congr fun o ho => ?_)
        have hlt := card_sdiff_lt hi ((hbranch o).mp ho).2.1
        rw [ih depth' _ (Finset.sdiff_subset.trans hT) (by omega) (by omega)]

end ExactCover

end RyanNetwork.Lib

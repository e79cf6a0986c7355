import RyanNetwork.Sudoku.SudokuSolver
import Mathlib.Data.Finset.Basic
import Mathlib.Data.Finset.Card

/-!
# Covering and uncovering columns

A matrix is what the constructor lays out: the headers of the columns and, row by row, the
nodes. While `S` are the columns that are not covered, the header of each of them heads the
ring of those of its nodes whose rows only meet columns of `S`. `cover` takes one column out
of `S`, and `uncover` restores every link and size as it was.
-/
namespace RyanNetwork.Sudoku

open Lib

set_option autoImplicit false

/-- The headers and the rows, with the header that each node belongs to and its name. -/
structure Matrix where
  root : Nat
  columns : List Nat
  rows : List (List Nat)
  col : Nat → Nat
  name : Nat → Nat
  nodup : (root :: (columns ++ rows.flatten)).Nodup
  col_mem : ∀ n ∈ rows.flatten, col n ∈ columns
  cols_nodup : ∀ r ∈ rows, (r.map col).Nodup

namespace Matrix

variable (M : Matrix) {S gone : Finset Nat} {c n m : Nat} {r r' : List Nat}

/-- The row of the node only meets columns of `S`. -/
def Standing (S : Finset Nat) (n : Nat) : Prop :=
  ∀ r ∈ M.rows, n ∈ r → ∀ m ∈ r, M.col m ∈ S

instance (S : Finset Nat) : DecidablePred (M.Standing S) :=
  fun n => inferInstanceAs (Decidable (∀ r ∈ M.rows, n ∈ r → ∀ m ∈ r, M.col m ∈ S))

/-- The nodes of a column, in the order in which they were made. -/
def inColumn (S : Finset Nat) (c : Nat) : List Nat :=
  M.rows.flatten.filter fun n => M.col n = c ∧ M.Standing S n

/-- A bound on the turns of every loop. -/
def size : Nat := (M.columns ++ M.rows.flatten).length

theorem mem_inColumn :
    n ∈ M.inColumn S c ↔ n ∈ M.rows.flatten ∧ M.col n = c ∧ M.Standing S n := by
  rw [inColumn, List.mem_filter, decide_eq_true_eq]

theorem nodes_nodup : M.rows.flatten.Nodup :=
  (List.nodup_append.mp (List.nodup_cons.mp M.nodup).2).2.1

theorem columns_nodup : M.columns.Nodup :=
  (List.nodup_append.mp (List.nodup_cons.mp M.nodup).2).1

theorem header_not_node (hc : c ∈ M.columns) : c ∉ M.rows.flatten := by
  intro hn
  exact (List.nodup_append.mp (List.nodup_cons.mp M.nodup).2).2.2 c hc c hn rfl

theorem root_not_header : M.root ∉ M.columns := fun h =>
  (List.nodup_cons.mp M.nodup).1 (List.mem_append_left _ h)

theorem root_not_node : M.root ∉ M.rows.flatten := fun h =>
  (List.nodup_cons.mp M.nodup).1 (List.mem_append_right _ h)

theorem inColumn_nodup (S : Finset Nat) (c : Nat) : (M.inColumn S c).Nodup :=
  M.nodes_nodup.filter _

theorem inColumn_length (S : Finset Nat) (c : Nat) : (M.inColumn S c).length ≤ M.size := by
  have hle := List.length_filter_le (fun n => decide (M.col n = c ∧ M.Standing S n)) M.rows.flatten
  rw [size, List.length_append]
  unfold inColumn
  omega

variable {M}

theorem mem_nodes (hr : r ∈ M.rows) (hn : n ∈ r) : n ∈ M.rows.flatten :=
  List.mem_flatten.mpr ⟨r, hr, hn⟩

theorem row_nodup (hr : r ∈ M.rows) : r.Nodup := (List.nodup_flatten.mp M.nodes_nodup).1 r hr

theorem row_length (hr : r ∈ M.rows) : r.length ≤ M.size := by
  have hle := (List.sublist_flatten_of_mem hr).length_le
  rw [size, List.length_append]
  omega

/-- A node is in one row only. -/
theorem row_unique (hr : r ∈ M.rows) (hr' : r' ∈ M.rows) (hn : n ∈ r) (hn' : n ∈ r') : r = r' := by
  by_contra hne
  have hsymm : Std.Symm (List.Disjoint (α := Nat)) := ⟨fun _ _ h => h.symm⟩
  have hdisj := (List.nodup_flatten.mp M.nodes_nodup).2
  exact (hdisj.forall hr hr' hne) hn hn'

/-- A row meets a column once. -/
theorem col_injective (hr : r ∈ M.rows) (hn : n ∈ r) (hm : m ∈ r) (he : M.col n = M.col m) :
    n = m :=
  List.inj_on_of_nodup_map (M.cols_nodup r hr) hn hm he

theorem standing_of_row (hr : r ∈ M.rows) (hn : n ∈ r) :
    M.Standing S n ↔ ∀ m ∈ r, M.col m ∈ S := by
  constructor
  · intro h
    exact h r hr hn
  · intro h r' hr' hn'
    rw [← row_unique hr hr' hn hn']
    exact h

end Matrix

namespace Nodes

def horizontal (h : Nodes) : Links Nat := ⟨h.right, h.left⟩

def vertical (h : Nodes) : Links Nat := ⟨h.down, h.up⟩

theorem hide_vertical (h : Nodes) (j : Nat) : (h.hide j).vertical = h.vertical.unlink j := rfl

theorem hide_size (h : Nodes) (j : Nat) :
    (h.hide j).size = Function.update h.size (h.col j) (h.size (h.col j) - 1) := rfl

theorem ext_links {h h' : Nodes} (hh : h.horizontal = h'.horizontal)
    (hv : h.vertical = h'.vertical) (hc : h.col = h'.col) (hn : h.name = h'.name)
    (hs : h.size = h'.size) : h = h' := by
  cases h
  cases h'
  cases hh
  cases hv
  cases hc
  cases hn
  cases hs
  rfl

/-- A hidden node goes back to its place, and the size of its column with it. -/
theorem unhide_hide {h : Nodes} {j : Nat} (hpn : h.up (h.down j) = j)
    (hnp : h.down (h.up j) = j) : (h.hide j).unhide j = h := by
  refine ext_links rfl (Links.relink_unlink (l := h.vertical) hpn hnp) rfl rfl ?_
  · change Function.update (h.hide j).size (h.col j) ((h.hide j).size (h.col j) + 1) = h.size
    rw [hide_size, Function.update_self, Function.update_idem]
    exact Function.update_eq_self_iff.mpr (by omega)

end Nodes

/-! ## The rings of a matrix -/

variable {M : Matrix} {S gone : Finset Nat} {h : Nodes} {c j n : Nat} {fuel : Nat}

/-- The columns of `S` hold their standing nodes but those in `gone`. -/
structure Laid (M : Matrix) (S gone : Finset Nat) (h : Nodes) : Prop where
  col : ∀ n ∈ M.rows.flatten, h.col n = M.col n
  name : ∀ n ∈ M.rows.flatten, h.name n = M.name n
  rows : ∀ a n b, a ++ n :: b ∈ M.rows → h.horizontal.Ring n (b ++ a)
  columns : ∀ c ∈ S, h.vertical.Ring c ((M.inColumn S c).filter (· ∉ gone))
  size : ∀ c ∈ S, h.size c = ((M.inColumn S c).filter (· ∉ gone)).length

/-- Nothing is taken out beyond what the covered columns took along. -/
structure Holds (M : Matrix) (S : Finset Nat) (h : Nodes) : Prop extends Laid M S ∅ h where
  active : ∀ c ∈ S, c ∈ M.columns
  header : h.horizontal.Ring M.root (M.columns.filter (· ∈ S))

/-- One element less passes the filter. -/
theorem filter_without {p q : Nat → Bool} {xs as bs : List Nat} (hxs : xs.Nodup)
    (he : xs.filter p = as ++ j :: bs) (hq : ∀ y, q y = (p y && decide (y ≠ j))) :
    xs.filter q = as ++ bs := by
  have hnd : (as ++ j :: bs).Nodup := he ▸ hxs.filter _
  have hj : ∀ y ∈ as ++ bs, y ≠ j := by
    rintro y hy rfl
    exact (List.nodup_cons.mp (List.nodup_middle.mp hnd)).1 hy
  have hsplit : xs.filter q = (xs.filter p).filter (· ≠ j) := by
    rw [List.filter_filter]
    refine List.filter_congr fun y _ => ?_
    rw [hq, Bool.and_comm]
  have hkeep : (as ++ bs).filter (· ≠ j) = as ++ bs := List.filter_eq_self.mpr fun y hy => by
    simpa using hj y hy
  rw [hsplit, he, List.filter_append, List.filter_cons_of_neg (by simp), ← List.filter_append]
  exact hkeep

/-- The nodes of the ring of a column belong to it. -/
theorem Matrix.ring_mem (M : Matrix) (hn : n ∈ c :: (M.inColumn S c).filter (· ∉ gone)) :
    n = c ∨ n ∈ M.rows.flatten ∧ M.col n = c := by
  rcases List.mem_cons.mp hn with he | hn
  · exact .inl he
  · have hmem := (M.mem_inColumn).mp (List.mem_of_mem_filter hn)
    exact .inr ⟨hmem.1, hmem.2.1⟩

/-- The rings of two columns have no node in common. -/
theorem Matrix.ring_disjoint (hS : ∀ c ∈ S, c ∈ M.columns) {d : Nat} (hc : c ∈ S) (hd : d ∈ S)
    (hne : c ≠ d)
    (hn : n ∈ c :: (M.inColumn S c).filter (· ∉ gone)) :
    n ∉ d :: (M.inColumn S d).filter (· ∉ gone) := by
  intro hn'
  rcases M.ring_mem hn with rfl | ⟨hnode, hcol⟩
  · rcases M.ring_mem hn' with he | ⟨hnode, _⟩
    · exact hne he
    · exact M.header_not_node (hS n hc) hnode
  · rcases M.ring_mem hn' with rfl | ⟨_, hcol'⟩
    · exact M.header_not_node (hS n hd) hnode
    · exact hne (hcol.symm.trans hcol')

/-- One turn of the inner loop of `cover`, and the turn of `uncover` that undoes it. -/
theorem Laid.hide (hl : Laid M S gone h) (hS : ∀ c ∈ S, c ∈ M.columns)
    (hj : j ∈ M.inColumn S (M.col j)) (hcol : M.col j ∈ S) (hgone : j ∉ gone) :
    Laid M S (insert j gone) (h.hide j) ∧ (h.hide j).unhide j = h := by
  have hnode := ((M.mem_inColumn).mp hj).1
  have hring := hl.columns _ hcol
  have hmem : j ∈ (M.inColumn S (M.col j)).filter (· ∉ gone) :=
    List.mem_filter.mpr ⟨hj, by simpa using hgone⟩
  have hin := List.mem_cons_of_mem (M.col j) hmem
  obtain ⟨as, bs, he⟩ := List.append_of_mem hmem
  have hout : (M.inColumn S (M.col j)).filter (· ∉ insert j gone) = as ++ bs :=
    filter_without (M.inColumn_nodup S (M.col j)) he fun y => by
      rw [← Bool.decide_and]
      simp [not_or, and_comm]
  have hsame : ∀ d ∈ S, d ≠ M.col j → (M.inColumn S d).filter (· ∉ insert j gone)
      = (M.inColumn S d).filter (· ∉ gone) := by
    intro d _ hne
    refine List.filter_congr fun y hy => ?_
    have hyj : y ≠ j := by
      rintro rfl
      exact hne ((M.mem_inColumn).mp hy).2.1.symm
    simp [hyj]
  constructor
  · refine ⟨hl.col, hl.name, hl.rows, ?_, ?_⟩
    · intro d hd
      rw [Nodes.hide_vertical]
      by_cases hdj : d = M.col j
      · subst hdj
        rw [hout]
        rw [he] at hring
        exact hring.unlink
      · rw [hsame d hd hdj]
        refine (hl.columns d hd).unlink_other ?_ ?_
        · exact Matrix.ring_disjoint hS hcol hd (Ne.symm hdj) (hring.next_mem hin)
        · exact Matrix.ring_disjoint hS hcol hd (Ne.symm hdj) (hring.prev_mem hin)
    · intro d hd
      rw [Nodes.hide_size, hl.col j hnode]
      by_cases hdj : d = M.col j
      · subst hdj
        rw [Function.update_self, hl.size _ hd, hout, he]
        simp only [List.length_append, List.length_cons]
        omega
      · rw [Function.update_of_ne hdj, hsame d hd hdj]
        exact hl.size d hd
  · exact Nodes.unhide_hide (hring.prev_next hin) (hring.next_prev hin)

/-- The other nodes of the row of `n`. -/
def Mates (M : Matrix) (n m : Nat) : Prop := ∃ r ∈ M.rows, n ∈ r ∧ m ∈ r ∧ m ≠ n

/-- The inner loops of `cover` and `uncover` at one node of the covered column. -/
theorem Laid.hide_row {a b : List Nat} (hl : Laid M S gone h) (hS : ∀ c ∈ S, c ∈ M.columns)
    (hfuel : M.size < fuel) (hr : a ++ n :: b ∈ M.rows) (hstand : M.Standing S n)
    (hgone : ∀ m ∈ b ++ a, m ∉ gone) :
    ∃ h', around Nodes.right (fun h j => some (h.hide j)) n fuel h (h.right n) = some h' ∧
      around Nodes.left (fun h j => some (h.unhide j)) n fuel h' (h'.left n) = some h ∧
      h'.horizontal = h.horizontal ∧ Laid M S (gone ∪ (b ++ a).toFinset) h' := by
  have hrow : ∀ m ∈ b ++ a, m ∈ a ++ n :: b := by
    intro m hm
    rw [List.mem_append] at hm
    rw [List.mem_append, List.mem_cons]
    tauto
  have hnodup := Matrix.row_nodup hr
  have hba : (b ++ a).Nodup := List.nodup_append_comm.mp
    (List.nodup_cons.mp (List.nodup_middle.mp hnodup)).2
  have hlen := Matrix.row_length hr
  have hlive := (Matrix.standing_of_row hr (List.mem_append_right a List.mem_cons_self)).mp hstand
  have hring : ∀ (done : List Nat) (h' : Nodes), (h'.horizontal = h.horizontal ∧
      Laid M S (gone ∪ done.toFinset) h') → h'.horizontal.Ring n (b ++ a) :=
    fun done h' hP => hP.2.rows a n b hr
  have hstep : ∀ (done : List Nat) (y : Nat) (rest : List Nat) (h₁ : Nodes),
      b ++ a = done ++ y :: rest →
      (h₁.horizontal = h.horizontal ∧ Laid M S (gone ∪ done.toFinset) h₁) →
      ∃ h₂, some (h₁.hide y) = some h₂ ∧ some (h₂.unhide y) = some h₁ ∧
        h₂.horizontal = h.horizontal ∧ Laid M S (gone ∪ (done ++ [y]).toFinset) h₂ := by
    intro done y rest h₁ he hP
    have hy : y ∈ b ++ a := by rw [he]; simp
    have hyr := hrow y hy
    have hcol : M.col y ∈ S := hlive y hyr
    have hyin : y ∈ M.inColumn S (M.col y) := (M.mem_inColumn).mpr
      ⟨Matrix.mem_nodes hr hyr, rfl, (Matrix.standing_of_row hr hyr).mpr hlive⟩
    have hnew : y ∉ gone ∪ done.toFinset := by
      rw [Finset.mem_union, List.mem_toFinset]
      rintro (hg | hd)
      · exact hgone y hy hg
      · rw [he] at hba
        exact (List.nodup_append.mp hba).2.2 y hd y List.mem_cons_self rfl
    obtain ⟨hl', hundo⟩ := hP.2.hide hS hyin hcol hnew
    refine ⟨h₁.hide y, rfl, congrArg some hundo, hP.1, ?_⟩
    have hset : gone ∪ (done ++ [y]).toFinset = insert y (gone ∪ done.toFinset) := by
      ext m
      simp only [Finset.mem_union, List.mem_toFinset, List.mem_append, List.mem_singleton,
        Finset.mem_insert]
      tauto
    rw [hset]
    exact hl'
  have hturns : (b ++ a).length < fuel := by
    simp only [List.length_append, List.length_cons] at hlen ⊢
    omega
  exact around_undo hring hstep hturns ⟨rfl, by rwa [List.toFinset_nil, Finset.union_empty]⟩

/-- A row that is hidden for a column stays in that column. -/
theorem Matrix.inColumn_keep (hg : ∀ m ∈ gone, ∃ n ∈ M.inColumn S c, Mates M n m) :
    (M.inColumn S c).filter (· ∉ gone) = M.inColumn S c := by
  refine List.filter_eq_self.mpr fun y hy => ?_
  rw [decide_eq_true_eq]
  intro hmem
  obtain ⟨n, hn, r, hr, hnr, hyr, hne⟩ := hg y hmem
  have hcols : M.col y = M.col n :=
    ((M.mem_inColumn).mp hy).2.1.trans ((M.mem_inColumn).mp hn).2.1.symm
  exact hne (Matrix.col_injective hr hyr hnr hcols)

/-- The rows of the nodes in `done` have been hidden for the column `c`. -/
def HidingColumn (M : Matrix) (S : Finset Nat) (c : Nat) (h : Nodes) (done : List Nat)
    (h' : Nodes) : Prop :=
  h'.horizontal = h.horizontal ∧ ∃ gone : Finset Nat,
    (∀ m, m ∈ gone ↔ ∃ n ∈ done, Mates M n m) ∧ Laid M S gone h' ∧ ∀ n ∈ done, n ∈ M.inColumn S c

/-- The outer loops of `cover` and `uncover`. -/
theorem Laid.hide_column (hl : Laid M S ∅ h) (hS : ∀ c ∈ S, c ∈ M.columns)
    (hfuel : M.size < fuel) (hc : c ∈ S) :
    ∃ h' gone, around Nodes.down (fun h row =>
        around Nodes.right (fun h j => some (h.hide j)) row fuel h (h.right row)) c fuel h (h.down c)
        = some h' ∧
      around Nodes.up (fun h row =>
        around Nodes.left (fun h j => some (h.unhide j)) row fuel h (h.left row)) c fuel h'
          (h'.up c) = some h ∧
      h'.horizontal = h.horizontal ∧ Laid M S gone h' ∧
      ∀ m, m ∈ gone ↔ ∃ n ∈ M.inColumn S c, Mates M n m := by
  have hring : ∀ (done : List Nat) (h₁ : Nodes), HidingColumn M S c h done h₁ →
      h₁.vertical.Ring c (M.inColumn S c) := by
    rintro done h₁ ⟨_, gone, hg, hl₁, hdone⟩
    have hring := hl₁.columns c hc
    rwa [Matrix.inColumn_keep fun m hm => by
      obtain ⟨n, hn, hmate⟩ := (hg m).mp hm
      exact ⟨n, hdone n hn, hmate⟩] at hring
  have hstep : ∀ (done : List Nat) (y : Nat) (rest : List Nat) (h₁ : Nodes),
      M.inColumn S c = done ++ y :: rest → HidingColumn M S c h done h₁ →
      ∃ h₂, around Nodes.right (fun h j => some (h.hide j)) y fuel h₁ (h₁.right y) = some h₂ ∧
        around Nodes.left (fun h j => some (h.unhide j)) y fuel h₂ (h₂.left y) = some h₁ ∧
        HidingColumn M S c h (done ++ [y]) h₂ := by
    rintro done y rest h₁ he ⟨hhor, gone, hg, hl₁, hdone⟩
    have hy : y ∈ M.inColumn S c := by rw [he]; simp
    obtain ⟨hnode, hcol, hstand⟩ := (M.mem_inColumn).mp hy
    obtain ⟨r, hr, hyr⟩ := List.mem_flatten.mp hnode
    obtain ⟨a, b, rfl⟩ := List.append_of_mem hyr
    have hmates : ∀ m, Mates M y m ↔ m ∈ b ++ a := by
      have hrnd := Matrix.row_nodup hr
      have hyout := (List.nodup_cons.mp (List.nodup_middle.mp hrnd)).1
      intro m
      constructor
      · rintro ⟨r', hr', hyr', hmr', hne⟩
        rw [← Matrix.row_unique hr hr' hyr hyr', List.mem_append, List.mem_cons] at hmr'
        rw [List.mem_append]
        tauto
      · intro hm
        refine ⟨_, hr, hyr, ?_, ?_⟩
        · rw [List.mem_append] at hm
          rw [List.mem_append, List.mem_cons]
          tauto
        · rintro rfl
          rw [List.mem_append, or_comm, ← List.mem_append] at hm
          exact hyout hm
    have hfresh : ∀ m ∈ b ++ a, m ∉ gone := by
      intro m hm hmg
      obtain ⟨n, hn, r', hr', hnr', hmr', hne⟩ := (hg m).mp hmg
      obtain ⟨r'', hr'', hyr'', hmr'', _⟩ := (hmates m).mpr hm
      have hrr := Matrix.row_unique hr' hr'' hmr' hmr''
      have hcols : M.col n = M.col y :=
        ((M.mem_inColumn).mp (hdone n hn)).2.1.trans hcol.symm
      have hny := Matrix.col_injective hr'' (hrr ▸ hnr') hyr'' hcols
      have hnd := M.inColumn_nodup S c
      rw [he] at hnd
      exact (List.nodup_append.mp hnd).2.2 n hn y List.mem_cons_self hny
    obtain ⟨h₂, hgo, hback, hhor', hl₂⟩ := hl₁.hide_row hS hfuel hr hstand hfresh
    refine ⟨h₂, hgo, hback, hhor'.trans hhor, gone ∪ (b ++ a).toFinset, ?_, hl₂, ?_⟩
    · intro m
      rw [Finset.mem_union, List.mem_toFinset, hg m, ← hmates m]
      simp [or_and_right, exists_or]
    · intro n hn
      rw [List.mem_append, List.mem_singleton] at hn
      rcases hn with hn | rfl
      · exact hdone n hn
      · exact hy
  have hturns : (M.inColumn S c).length < fuel := Nat.lt_of_le_of_lt (M.inColumn_length S c) hfuel
  obtain ⟨h', hgo, hback, hhor, gone, hg, hl', _⟩ :=
    around_undo hring hstep hturns ⟨rfl, ∅, by simp, hl, by simp⟩
  exact ⟨h', gone, hgo, hback, hhor, hl', hg⟩

/-! ## `cover` and `uncover` -/

/-- What is left of a column when the rows of another one are gone. -/
theorem Matrix.inColumn_erase {d : Nat} (hd : d ∈ S.erase c)
    (hg : ∀ m, m ∈ gone ↔ ∃ n ∈ M.inColumn S c, Mates M n m) :
    (M.inColumn S d).filter (· ∉ gone) = M.inColumn (S.erase c) d := by
  unfold Matrix.inColumn
  rw [List.filter_filter]
  refine List.filter_congr fun y hy => ?_
  rw [← Bool.decide_and]
  congr 1
  obtain ⟨r, hr, hyr⟩ := List.mem_flatten.mp hy
  rw [Matrix.standing_of_row hr hyr, Matrix.standing_of_row hr hyr, hg, eq_iff_iff]
  constructor
  · rintro ⟨hout, hcol, hlive⟩
    refine ⟨hcol, fun m hm => Finset.mem_erase.mpr ⟨?_, hlive m hm⟩⟩
    rintro hmc
    refine hout ⟨m, (M.mem_inColumn).mpr ⟨mem_nodes hr hm, hmc,
      (standing_of_row hr hm).mpr hlive⟩, r, hr, hm, hyr, ?_⟩
    rintro rfl
    exact (Finset.mem_erase.mp hd).1 (hcol.symm.trans hmc)
  · rintro ⟨hcol, hlive⟩
    refine ⟨?_, hcol, fun m hm => Finset.mem_of_mem_erase (hlive m hm)⟩
    rintro ⟨n, hn, r', hr', hnr', hyr', _⟩
    have hrr := row_unique hr hr' hyr hyr'
    exact (Finset.mem_erase.mp (hlive n (hrr ▸ hnr'))).1 ((M.mem_inColumn).mp hn).2.1

/-- Rows hold no header, so that header links can be changed beside them. -/
theorem Holds.unlink_header (hh : Holds M S h) (hc : c ∈ S) :
    (∀ a n b, a ++ n :: b ∈ M.rows → (h.horizontal.unlink c).Ring n (b ++ a)) ∧
      (h.horizontal.unlink c).Ring M.root (M.columns.filter (· ∈ S.erase c)) ∧
      (h.horizontal.unlink c).relink c = h.horizontal := by
  have hmem : c ∈ M.columns.filter (· ∈ S) :=
    List.mem_filter.mpr ⟨hh.active c hc, by simpa using hc⟩
  have hin := List.mem_cons_of_mem M.root hmem
  have hnot : ∀ n ∈ M.root :: M.columns.filter (· ∈ S), n ∉ M.rows.flatten := by
    intro n hn
    rcases List.mem_cons.mp hn with rfl | hn
    · exact M.root_not_node
    · exact M.header_not_node (List.mem_of_mem_filter hn)
  refine ⟨?_, ?_, ?_⟩
  · intro a n b hr
    have hsub : ∀ m ∈ n :: (b ++ a), m ∈ M.rows.flatten := by
      intro m hm
      refine Matrix.mem_nodes hr ?_
      rw [List.mem_cons, List.mem_append] at hm
      rw [List.mem_append, List.mem_cons]
      tauto
    refine (hh.rows a n b hr).unlink_other ?_ ?_
    · exact fun hm => hnot _ (hh.header.next_mem hin) (hsub _ hm)
    · exact fun hm => hnot _ (hh.header.prev_mem hin) (hsub _ hm)
  · obtain ⟨as, bs, he⟩ := List.append_of_mem hmem
    have hout : M.columns.filter (· ∈ S.erase c) = as ++ bs :=
      filter_without M.columns_nodup he fun y => by
        rw [← Bool.decide_and]
        simp [and_comm]
    rw [hout]
    have hring := hh.header
    rw [he] at hring
    exact hring.unlink
  · exact Links.relink_unlink (hh.header.prev_next hin) (hh.header.next_prev hin)

/-- `cover` takes the column out and leaves its own ring as it was; `uncover` then restores
every link and every size. -/
theorem Holds.cover (hh : Holds M S h) (hfuel : M.size < fuel) (hc : c ∈ S) :
    ∃ h', h.cover fuel c = some h' ∧ h'.uncover fuel c = some h ∧ Holds M (S.erase c) h' ∧
      h'.vertical.Ring c (M.inColumn S c) := by
  obtain ⟨hrows, hheader, hrelink⟩ := hh.unlink_header hc
  let h₁ : Nodes := { h with
    left := (h.horizontal.unlink c).prev
    right := (h.horizontal.unlink c).next }
  have hl₁ : Laid M S ∅ h₁ := ⟨hh.col, hh.name, hrows, hh.columns, hh.size⟩
  obtain ⟨h', gone, hgo, hback, hhor, hl', hg⟩ := hl₁.hide_column hh.active hfuel hc
  have hrest : ∀ d ∈ S.erase c, (M.inColumn S d).filter (· ∉ gone) = M.inColumn (S.erase c) d :=
    fun d hd => Matrix.inColumn_erase hd hg
  have hall : ∀ T d, (M.inColumn T d).filter (· ∉ (∅ : Finset Nat)) = M.inColumn T d := by
    intro T d
    exact List.filter_eq_self.mpr fun y _ => by simp
  refine ⟨h', hgo, ?_, ⟨⟨hl'.col, hl'.name, hl'.rows, ?_, ?_⟩, ?_, ?_⟩, ?_⟩
  · unfold Nodes.uncover
    rw [hback, Option.map_some]
    refine congrArg some (Nodes.ext_links hrelink rfl rfl rfl rfl)
  · intro d hd
    rw [hall, ← hrest d hd]
    exact hl'.columns d (Finset.mem_of_mem_erase hd)
  · intro d hd
    rw [hall, ← hrest d hd]
    exact hl'.size d (Finset.mem_of_mem_erase hd)
  · exact fun d hd => hh.active d (Finset.mem_of_mem_erase hd)
  · rw [hhor]
    exact hheader
  · have hring := hl'.columns c hc
    have hown : (M.inColumn S c).filter (· ∉ gone) = M.inColumn S c :=
      Matrix.inColumn_keep fun m hm => (hg m).mp hm
    rwa [hown] at hring

/-- Columns covered one after the other, and uncovered in the opposite order. -/
theorem Holds.covers (hfuel : M.size < fuel) :
    ∀ (cs : List Nat) (S : Finset Nat) (h : Nodes), Holds M S h → cs.Nodup → (∀ c ∈ cs, c ∈ S) →
      ∃ h', cs.foldlM (fun h c => h.cover fuel c) h = some h' ∧
        cs.reverse.foldlM (fun h c => h.uncover fuel c) h' = some h ∧
        Holds M (S \ cs.toFinset) h' := by
  intro cs
  induction cs with
  | nil =>
    intro S h hh _ _
    exact ⟨h, rfl, rfl, by simpa using hh⟩
  | cons c cs ih =>
    intro S h hh hnodup hsub
    obtain ⟨hc, hcs⟩ := List.nodup_cons.mp hnodup
    obtain ⟨h₁, hgo₁, hback₁, hh₁, _⟩ := hh.cover hfuel (hsub c List.mem_cons_self)
    have hsub₁ : ∀ d ∈ cs, d ∈ S.erase c := by
      intro d hd
      exact Finset.mem_erase.mpr ⟨fun he => hc (he ▸ hd), hsub d (List.mem_cons_of_mem c hd)⟩
    obtain ⟨h', hgo, hback, hh'⟩ := ih (S.erase c) h₁ hh₁ hcs hsub₁
    refine ⟨h', ?_, ?_, ?_⟩
    · rw [List.foldlM_cons, hgo₁]
      exact hgo
    · rw [List.reverse_cons, List.foldlM_append, hback]
      simp only [Option.bind_eq_bind, Option.bind_some, List.foldlM_cons, List.foldlM_nil, hback₁]
      rfl
    · have hset : S \ (c :: cs).toFinset = S.erase c \ cs.toFinset := by
        ext d
        simp only [Finset.mem_sdiff, List.mem_toFinset, List.mem_cons, Finset.mem_erase]
        tauto
      rw [hset]
      exact hh'

end RyanNetwork.Sudoku

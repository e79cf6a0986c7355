import RyanNetwork.Sudoku.DancingLinks
import RyanNetwork.Lib.ExactCover

/-!
# `solve` searches for an exact cover

The rows on the stack and the columns that are not covered belong together: `solve` looks for
rows that cover exactly those columns. What the links say about the matrix fixes every choice
on the way, so `solve` follows a search on the matrix alone. It returns `false` only with the
solver as it found it.
-/
namespace RyanNetwork.Sudoku

open Lib SudokuSolver

set_option autoImplicit false

variable {M : Matrix} {S : Finset Nat} {h : Nodes} {c : Nat} {fuel : Nat}

namespace Matrix

/-- The columns that a row meets. -/
def items (M : Matrix) (r : List Nat) : Finset Nat := (r.map M.col).toFinset

theorem mem_items {r : List Nat} {d : Nat} : d ∈ M.items r ↔ ∃ n ∈ r, M.col n = d := by
  simp [items]

/-- Some rows of the matrix cover the columns of `S` exactly. -/
def Coverable (M : Matrix) (S : Finset Nat) : Prop :=
  ∃ X : List (List Nat), (∀ r ∈ X, r ∈ M.rows) ∧ ExactCover M.items S X

/-- The rows of the nodes of a column are those that meet it and stay within `S`. -/
theorem standing_iff_subset {r : List Nat} {n : Nat} (hr : r ∈ M.rows) (hn : n ∈ r) :
    M.Standing S n ↔ M.items r ⊆ S := by
  rw [standing_of_row hr hn]
  constructor
  · intro hall d hd
    obtain ⟨m, hm, rfl⟩ := mem_items.mp hd
    exact hall m hm
  · intro hsub m hm
    exact hsub (mem_items.mpr ⟨m, hm, rfl⟩)

/-- The row that the node belongs to. -/
def rowWith (M : Matrix) (n : Nat) : List Nat := (M.rows.find? (n ∈ ·)).getD []

theorem rowWith_eq {r : List Nat} {n : Nat} (hr : r ∈ M.rows) (hn : n ∈ r) : M.rowWith n = r := by
  have hsome : (M.rows.find? (n ∈ ·)).isSome = true :=
    List.find?_isSome.mpr ⟨r, hr, by simpa using hn⟩
  obtain ⟨r', hr'⟩ := Option.isSome_iff_exists.mp hsome
  have hn' : n ∈ r' := by simpa using List.find?_some hr'
  rw [rowWith, hr', Option.getD_some]
  exact row_unique (List.mem_of_find?_eq_some hr') hr hn' hn

/-- The loop of `get_min_column` over headers, with the smallest column so far. -/
def narrowest (M : Matrix) (S : Finset Nat) : Nat → List Nat → Nat
  | c, [] => c
  | c, cc :: rest =>
    if (M.inColumn S cc).length < (M.inColumn S c).length then
      if (M.inColumn S cc).length ≤ 1 then cc else narrowest M S cc rest
    else narrowest M S c rest

/-- The first column that is short enough, or the first of the shortest. -/
def minColumn (M : Matrix) (S : Finset Nat) : Nat :=
  match M.columns.filter (· ∈ S) with
  | [] => M.root
  | c :: rest => if 1 < (M.inColumn S c).length then M.narrowest S c rest else c

theorem narrowest_mem :
    ∀ (rest : List Nat) (c : Nat), c ∈ S → (∀ d ∈ rest, d ∈ S) → M.narrowest S c rest ∈ S := by
  intro rest
  induction rest with
  | nil =>
    intro c hc _
    exact hc
  | cons cc rest ih =>
    intro c hc hrest
    have hcc := hrest cc List.mem_cons_self
    have htail : ∀ d ∈ rest, d ∈ S := fun d hd => hrest d (List.mem_cons_of_mem cc hd)
    rw [narrowest]
    split
    · split
      · exact hcc
      · exact ih cc hcc htail
    · exact ih c hc htail

theorem minColumn_mem (hS : S ⊆ M.columns.toFinset) (hne : S.Nonempty) : M.minColumn S ∈ S := by
  obtain ⟨d, hd⟩ := hne
  have hmem : d ∈ M.columns.filter (· ∈ S) :=
    List.mem_filter.mpr ⟨List.mem_toFinset.mp (hS hd), by simpa using hd⟩
  obtain ⟨e, es, he⟩ := List.exists_cons_of_ne_nil (List.ne_nil_of_mem hmem)
  have hall : ∀ x ∈ e :: es, x ∈ S := by
    intro x hx
    rw [← he] at hx
    simpa using (List.mem_filter.mp hx).2
  unfold minColumn
  rw [he]
  dsimp only
  split
  · exact narrowest_mem es e (hall e List.mem_cons_self) fun x hx =>
      hall x (List.mem_cons_of_mem e hx)
  · exact hall e List.mem_cons_self

/-- The rows that `solve` tries on the columns of `S`. -/
def branch (M : Matrix) (S : Finset Nat) : List (List Nat) :=
  (M.inColumn S (M.minColumn S)).map M.rowWith

theorem branching (M : Matrix) :
    ExactCover.Branching M.items M.rows M.columns.toFinset M.branch := by
  intro S hS hne
  refine ⟨M.minColumn S, minColumn_mem hS hne, fun r => ?_⟩
  rw [branch, List.mem_map]
  constructor
  · rintro ⟨n, hn, rfl⟩
    obtain ⟨hnode, hcol, hstand⟩ := (M.mem_inColumn).mp hn
    obtain ⟨r, hr, hnr⟩ := List.mem_flatten.mp hnode
    rw [rowWith_eq hr hnr]
    exact ⟨hr, mem_items.mpr ⟨n, hnr, hcol⟩, (standing_iff_subset hr hnr).mp hstand⟩
  · rintro ⟨hr, hitem, hsub⟩
    obtain ⟨n, hn, hcol⟩ := mem_items.mp hitem
    refine ⟨n, (M.mem_inColumn).mpr ⟨mem_nodes hr hn, hcol, ?_⟩, rowWith_eq hr hn⟩
    exact (standing_iff_subset hr hn).mpr hsub

/-- The search that `solve` makes, on the matrix alone. -/
def search (M : Matrix) (depth : Nat) (S : Finset Nat) : Option (List (List Nat)) :=
  ExactCover.search M.items M.branch depth S

end Matrix

/-! ## The column that is chosen -/

theorem Holds.size_eq (hh : Holds M S h) (hc : c ∈ S) : h.size c = (M.inColumn S c).length := by
  have hall : (M.inColumn S c).filter (· ∉ (∅ : Finset Nat)) = M.inColumn S c :=
    List.filter_eq_self.mpr fun n _ => by simp
  rw [hh.size c hc, hall]

theorem Holds.minLoop (hh : Holds M S h) :
    ∀ (rest done : List Nat) (f d : Nat), M.columns.filter (· ∈ S) = done ++ rest →
      rest.length < f → d ∈ S →
      h.minLoop M.root f d (h.size d) (rest.headD M.root) = some (M.narrowest S d rest) := by
  intro rest
  induction rest with
  | nil =>
    intro done f d _ hf hd
    obtain ⟨f, rfl⟩ : ∃ f', f = f' + 1 := ⟨f - 1, by simp at hf; omega⟩
    simp [Nodes.minLoop, Matrix.narrowest]
  | cons cc rest ih =>
    intro done f d he hf hd
    obtain ⟨f, rfl⟩ : ∃ f', f = f' + 1 := ⟨f - 1, by omega⟩
    have hmem : cc ∈ M.columns.filter (· ∈ S) := by rw [he]; simp
    have hS : cc ∈ S := by simpa using (List.mem_filter.mp hmem).2
    have hne : cc ≠ M.root := by
      rintro rfl
      exact M.root_not_header (List.mem_of_mem_filter hmem)
    have hnext : h.right cc = rest.headD M.root := by
      have hring := hh.header
      rw [he] at hring
      exact hring.next_mid
    have hsplit : M.columns.filter (· ∈ S) = (done ++ [cc]) ++ rest := by rw [he]; simp
    have hf' : rest.length < f := by simp at hf; omega
    have hlt : h.size d > h.size cc ↔ (M.inColumn S cc).length < (M.inColumn S d).length := by
      rw [hh.size_eq hS, hh.size_eq hd]
      omega
    have hle : h.size cc ≤ 1 ↔ (M.inColumn S cc).length ≤ 1 := by
      rw [hh.size_eq hS]
      omega
    rw [List.headD_cons]
    unfold Nodes.minLoop Matrix.narrowest
    rw [if_neg hne, hnext]
    simp only [hlt, hle]
    split
    · split
      · rfl
      · exact ih (done ++ [cc]) f cc hsplit hf' hS
    · exact ih (done ++ [cc]) f d hsplit hf' hd

theorem Matrix.header_length (M : Matrix) (S : Finset Nat) :
    (M.columns.filter (· ∈ S)).length ≤ M.size := by
  have hle := List.length_filter_le (fun d => decide (d ∈ S)) M.columns
  rw [Matrix.size, List.length_append]
  omega

theorem Holds.getMinColumn (hh : Holds M S h) (hfuel : M.size < fuel) (hS : S.Nonempty) :
    h.left M.root ≠ M.root ∧ h.getMinColumn fuel M.root = some (M.minColumn S) := by
  obtain ⟨d, hd⟩ := hS
  have hmem : d ∈ M.columns.filter (· ∈ S) :=
    List.mem_filter.mpr ⟨hh.active d hd, by simpa using hd⟩
  have hring := hh.header
  have hlen := M.header_length S
  constructor
  · intro hleft
    have hlast : (M.columns.filter (· ∈ S)).getLastD M.root = M.root :=
      hring.prev_head.symm.trans hleft
    have hne := List.ne_nil_of_mem hmem
    rw [List.getLastD_eq_getLast?, List.getLast?_eq_some_getLast hne, Option.getD_some] at hlast
    have hroot := List.getLast_mem hne
    rw [hlast] at hroot
    exact M.root_not_header (List.mem_of_mem_filter hroot)
  · obtain ⟨e, es, he⟩ := List.exists_cons_of_ne_nil (List.ne_nil_of_mem hmem)
    have hnext : h.right M.root = e := by
      rw [he] at hring
      exact hring.next_head
    have heS : e ∈ S := by
      have hin : e ∈ M.columns.filter (· ∈ S) := by rw [he]; simp
      simpa using (List.mem_filter.mp hin).2
    have hnext' : h.right e = es.headD M.root := by
      have hring' : h.horizontal.Ring M.root ([] ++ e :: es) := he ▸ hring
      exact hring'.next_mid
    have hlt : h.size e > 1 ↔ 1 < (M.inColumn S e).length := by
      rw [hh.size_eq heS]
      omega
    unfold Nodes.getMinColumn Matrix.minColumn
    rw [he]
    dsimp only
    rw [hnext, hnext']
    simp only [hlt]
    split
    · refine hh.minLoop es [e] fuel e he ?_ heS
      rw [he] at hlen
      simp at hlen
      omega
    · rfl

theorem Holds.left_root_of_empty (hh : Holds M ∅ h) : h.left M.root = M.root := by
  have hnone : M.columns.filter (· ∈ (∅ : Finset Nat)) = [] :=
    List.filter_eq_nil_iff.mpr fun d _ => by simp
  have hprev := hh.header.prev_head
  rw [hnone] at hprev
  exact hprev

/-! ## The columns of a chosen row -/

theorem Holds.cover_row {a b : List Nat} {n : Nat} (hh : Holds M (S.erase (M.col n)) h)
    (hfuel : M.size < fuel) (hr : a ++ n :: b ∈ M.rows) (hstand : M.Standing S n) :
    ∃ h', around Nodes.right (fun h j => h.cover fuel (h.col j)) n fuel h (h.right n) = some h' ∧
      around Nodes.left (fun h j => h.uncover fuel (h.col j)) n fuel h' (h'.left n) = some h ∧
      Holds M (S \ M.items (a ++ n :: b)) h' := by
  have hrow : ∀ m ∈ b ++ a, m ∈ a ++ n :: b := by
    intro m hm
    rw [List.mem_append] at hm
    rw [List.mem_append, List.mem_cons]
    tauto
  have hself : n ∈ a ++ n :: b := List.mem_append_right a List.mem_cons_self
  have hnodup := Matrix.row_nodup hr
  have hout := (List.nodup_cons.mp (List.nodup_middle.mp hnodup)).1
  have hba : (b ++ a).Nodup := List.nodup_append_comm.mp
    (List.nodup_cons.mp (List.nodup_middle.mp hnodup)).2
  have hlive := (Matrix.standing_of_row hr hself).mp hstand
  have hlen := Matrix.row_length hr
  have hring : ∀ (done : List Nat) (h' : Nodes),
      Holds M (S.erase (M.col n) \ M.items done) h' → h'.horizontal.Ring n (b ++ a) :=
    fun done h' hh' => hh'.rows a n b hr
  have hstep : ∀ (done : List Nat) (y : Nat) (rest : List Nat) (h₁ : Nodes),
      b ++ a = done ++ y :: rest → Holds M (S.erase (M.col n) \ M.items done) h₁ →
      ∃ h₂, h₁.cover fuel (h₁.col y) = some h₂ ∧ h₂.uncover fuel (h₂.col y) = some h₁ ∧
        Holds M (S.erase (M.col n) \ M.items (done ++ [y])) h₂ := by
    intro done y rest h₁ he hh₁
    have hy : y ∈ b ++ a := by rw [he]; simp
    have hyr := hrow y hy
    have hnode := Matrix.mem_nodes hr hyr
    have hcol : M.col y ∈ S.erase (M.col n) \ M.items done := by
      rw [Finset.mem_sdiff, Finset.mem_erase]
      refine ⟨⟨?_, hlive y hyr⟩, ?_⟩
      · intro hcols
        have hyn := Matrix.col_injective hr hyr hself hcols
        rw [hyn, List.mem_append, or_comm, ← List.mem_append] at hy
        exact hout hy
      · intro hmem
        obtain ⟨m, hm, hcols⟩ := Matrix.mem_items.mp hmem
        have hmr : m ∈ a ++ n :: b := hrow m (by rw [he]; exact List.mem_append_left _ hm)
        have hmy := Matrix.col_injective hr hmr hyr hcols
        rw [he] at hba
        exact (List.nodup_append.mp hba).2.2 m hm y List.mem_cons_self hmy
    obtain ⟨h₂, hgo, hback, hh₂, _⟩ := hh₁.cover hfuel hcol
    rw [hh₁.col y hnode]
    refine ⟨h₂, hgo, ?_, ?_⟩
    · rw [hh₂.col y hnode]
      exact hback
    · have hset : S.erase (M.col n) \ M.items (done ++ [y])
          = (S.erase (M.col n) \ M.items done).erase (M.col y) := by
        ext d
        simp only [Finset.mem_sdiff, Finset.mem_erase, Matrix.items, List.map_append, List.map_cons,
          List.map_nil, List.mem_toFinset, List.mem_append, List.mem_singleton]
        tauto
      rw [hset]
      exact hh₂
  have hturns : (b ++ a).length < fuel := by
    simp only [List.length_append, List.length_cons] at hlen ⊢
    omega
  obtain ⟨h', hgo, hback, hh'⟩ := around_undo hring hstep hturns
    (by simpa [Matrix.items] using hh)
  refine ⟨h', hgo, hback, ?_⟩
  have hset : S \ M.items (a ++ n :: b) = S.erase (M.col n) \ M.items (b ++ a) := by
    ext d
    simp only [Finset.mem_sdiff, Finset.mem_erase, Matrix.items, List.map_append, List.map_cons,
      List.mem_toFinset, List.mem_append, List.mem_cons]
    tauto
  rw [hset]
  exact hh'

/-! ## The search -/

/-- The board after the values of the rows have been written into it. -/
def writeRows (value : List Nat → Nat × Nat) (board : Nat → Nat) (X : List (List Nat)) :
    Nat → Nat :=
  X.foldl (fun board r => Function.update board (value r).1 (value r).2) board

/-- The nodes are of the rows, one of each in turn. -/
def Stacked (M : Matrix) (stack : List Nat) (X : List (List Nat)) : Prop :=
  List.Forall₂ (fun n r => r ∈ M.rows ∧ n ∈ r) stack X

theorem writeOut_eq {value : List Nat → Nat × Nat} {s : SudokuSolver} {X : List (List Nat)}
    (hread : ∀ r ∈ M.rows, ∀ n ∈ r, s.nodes.readRow fuel n none none = some (value r))
    (hX : Stacked M s.stack X) : s.writeOut fuel = some (writeRows value s.inout X) := by
  unfold SudokuSolver.writeOut writeRows
  generalize s.inout = board
  generalize s.stack = stack at hX
  induction hX generalizing board with
  | nil => rfl
  | cons hnr _ ih =>
    rw [List.foldlM_cons, hread _ hnr.1 _ hnr.2, List.foldl_cons]
    exact ih _

/-- The outcome of a call is that of the search, when the rows `X` are on the stack. -/
def Follows (value : List Nat → Nat × Nat) (X : List (List Nat)) (s : SudokuSolver)
    (out : Option (Bool × SudokuSolver)) : Option (List (List Nat)) → Prop
  | some Y => ∃ s', out = some (true, s') ∧ s'.inout = writeRows value s.inout (X ++ Y)
  | none => out = some (false, s)

variable {value : List Nat → Nat × Nat}

/-- The loop over the rows of a covered column, given what the recursive calls do. -/
theorem tryRows_follows {recurse : SudokuSolver → Option (Bool × SudokuSolver)}
    {next : Finset Nat → Option (List (List Nat))} {X : List (List Nat)} {s : SudokuSolver}
    (hh : Holds M (S.erase c) s.nodes) (hring : s.nodes.vertical.Ring c (M.inColumn S c))
    (hfuel : M.size < fuel)
    (hrec : ∀ (r : List Nat) (n : Nat) (h' : Nodes), r ∈ M.rows → n ∈ r → M.col n = c →
      Holds M (S \ M.items r) h' →
      Follows value (X ++ [r]) { s with stack := s.stack ++ [n], nodes := h' }
        (recurse { s with stack := s.stack ++ [n], nodes := h' }) (next (S \ M.items r))) :
    ∀ (rest done : List Nat) (turns : Nat), M.inColumn S c = done ++ rest → rest.length < turns →
      Follows value X s (tryRows recurse fuel c turns s (rest.headD c))
        ((rest.map M.rowWith).findSome? fun r => (next (S \ M.items r)).map (r :: ·)) := by
  intro rest
  induction rest with
  | nil =>
    intro done turns _ hturns
    obtain ⟨turns, rfl⟩ : ∃ t, turns = t + 1 := ⟨turns - 1, by simp at hturns; omega⟩
    show tryRows recurse fuel c (turns + 1) s c = some (false, s)
    simp [tryRows]
  | cons n rest ih =>
    intro done turns he hturns
    obtain ⟨turns, rfl⟩ : ∃ t, turns = t + 1 := ⟨turns - 1, by omega⟩
    have hn : n ∈ M.inColumn S c := by rw [he]; simp
    obtain ⟨hnode, hcol, hstand⟩ := (M.mem_inColumn).mp hn
    obtain ⟨r, hr, hnr⟩ := List.mem_flatten.mp hnode
    obtain ⟨a, b, rfl⟩ := List.append_of_mem hnr
    have hne : n ≠ c := by
      rintro rfl
      exact (List.nodup_cons.mp hring.nodup).1 hn
    have hnext : s.nodes.down n = rest.headD c := by
      have hmid := hring
      rw [he] at hmid
      exact hmid.next_mid
    subst hcol
    obtain ⟨h', hgo, hback, hh'⟩ := hh.cover_row hfuel hr hstand
    have hcall := hrec _ n h' hr hnr rfl hh'
    rw [List.headD_cons, List.map_cons, List.findSome?_cons, Matrix.rowWith_eq hr hnr]
    cases hfound : next (S \ M.items (a ++ n :: b)) with
    | some Y =>
      rw [hfound] at hcall
      obtain ⟨s', hout, hboard⟩ := hcall
      refine ⟨s', ?_, ?_⟩
      · simp only [tryRows, if_neg hne, hgo, Option.bind_eq_bind, Option.bind_some, hout, if_true]
      · rw [hboard, List.append_assoc, List.singleton_append]
    | none =>
      rw [hfound] at hcall
      have hout : recurse { s with stack := s.stack ++ [n], nodes := h' }
          = some (false, { s with stack := s.stack ++ [n], nodes := h' }) := hcall
      have hstate : ({ s with stack := (s.stack ++ [n]).dropLast, nodes := s.nodes } : SudokuSolver)
          = s := by rw [List.dropLast_concat]
      have hturn : tryRows recurse fuel (M.col n) (turns + 1) s n
          = tryRows recurse fuel (M.col n) turns s (rest.headD (M.col n)) := by
        simp only [tryRows, if_neg hne, hgo, Option.bind_eq_bind, Option.bind_some, hout,
          Bool.false_eq_true, if_false, hback, hstate, hnext]
      rw [hturn]
      exact ih (done ++ [n]) turns (by rw [he]; simp) (by simp at hturns; omega)

/-- `solve` ends, and finds what the search on the columns that are not covered finds. -/
theorem solve_follows (hfuel : M.size < fuel)
    (hread : ∀ h, Holds M ∅ h → ∀ r ∈ M.rows, ∀ n ∈ r,
      h.readRow fuel n none none = some (value r)) :
    ∀ (depth : Nat) (S : Finset Nat) (s : SudokuSolver) (X : List (List Nat)), S.card < depth →
      s.root = M.root → Holds M S s.nodes → Stacked M s.stack X →
      Follows value X s (s.solve fuel depth) (M.search depth S) := by
  intro depth
  induction depth with
  | zero =>
    intro S s X hdepth
    omega
  | succ depth ih =>
    intro S s X hdepth hroot hh hX
    rcases S.eq_empty_or_nonempty with rfl | hne
    · have hfound : M.search (depth + 1) ∅ = some [] := by
        rw [Matrix.search, ExactCover.search, if_pos rfl]
      rw [hfound]
      refine ⟨{ s with inout := writeRows value s.inout X }, ?_, by rw [List.append_nil]⟩
      unfold SudokuSolver.solve
      rw [hroot, if_pos hh.left_root_of_empty, writeOut_eq (hread _ hh) hX]
      rfl
    · obtain ⟨hleft, hmin⟩ := hh.getMinColumn hfuel hne
      have hsub : S ⊆ M.columns.toFinset := fun d hd => List.mem_toFinset.mpr (hh.active d hd)
      have hc := Matrix.minColumn_mem hsub hne
      obtain ⟨h', hgo, hback, hh', hring⟩ := hh.cover hfuel hc
      have hrec : ∀ (r : List Nat) (n : Nat) (h₂ : Nodes), r ∈ M.rows → n ∈ r →
          M.col n = M.minColumn S → Holds M (S \ M.items r) h₂ →
          Follows value (X ++ [r]) { s with stack := s.stack ++ [n], nodes := h₂ }
            (solve fuel depth { s with stack := s.stack ++ [n], nodes := h₂ })
            (M.search depth (S \ M.items r)) := by
        intro r n h₂ hr hn hcol hh₂
        have hlt := ExactCover.card_sdiff_lt hc (Matrix.mem_items.mpr ⟨n, hn, hcol⟩)
        exact ih _ _ _ (by omega) hroot hh₂
          (List.rel_append hX (.cons ⟨hr, hn⟩ .nil))
      have hrows := tryRows_follows (s := { s with nodes := h' }) hh' hring hfuel hrec
        (M.inColumn S (M.minColumn S)) [] fuel rfl
        (Nat.lt_of_le_of_lt (M.inColumn_length S _) hfuel)
      have hdown : h'.down (M.minColumn S)
          = (M.inColumn S (M.minColumn S)).headD (M.minColumn S) := hring.next_head
      have hsearch : M.search (depth + 1) S = ((M.inColumn S (M.minColumn S)).map
          M.rowWith).findSome? fun r => (M.search depth (S \ M.items r)).map (r :: ·) := by
        rw [Matrix.search, ExactCover.search, if_neg hne.ne_empty]
        rfl
      rw [← hroot] at hleft hmin
      rw [hsearch]
      unfold SudokuSolver.solve
      rw [if_neg hleft, hmin]
      simp only [Option.bind_eq_bind, Option.bind_some, hgo, hdown]
      revert hrows
      cases ((M.inColumn S (M.minColumn S)).map M.rowWith).findSome? fun r =>
          (M.search depth (S \ M.items r)).map (r :: ·) with
      | some Y =>
        rintro ⟨s', hout, hboard⟩
        refine ⟨s', ?_, hboard⟩
        simp only [hout, Option.bind_some, if_true]
      | none =>
        intro hout
        show _ = some (false, s)
        rw [show tryRows (solve fuel depth) fuel (M.minColumn S) fuel { s with nodes := h' }
          ((M.inColumn S (M.minColumn S)).headD (M.minColumn S))
            = some (false, { s with nodes := h' }) from hout]
        simp only [Option.bind_some, Bool.false_eq_true, if_false, hback]

end RyanNetwork.Sudoku

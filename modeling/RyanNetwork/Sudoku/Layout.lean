import RyanNetwork.Sudoku.Solve

/-!
# The matrix that the constructor lays out

There is one column for every open constraint of the board: a cell that has no value yet, or
a value that a row, a column or a box does not have yet. There is one row for every value
that an empty cell can still take.
-/
namespace RyanNetwork.Sudoku

open Lib SudokuSolver

set_option autoImplicit false

inductive Constraint where
  | cell (i : Nat)
  | row (r v : Nat)
  | col (c v : Nat)
  | box (b v : Nat)
  deriving DecidableEq, Repr

namespace Constraint

/-- The index of the constraint in `columns_`. -/
def name : Constraint → Nat
  | cell i => i
  | row r v => getRowCol r v
  | col c v => getColCol c v
  | box b v => getBoxCol b v

/-- The board does not meet the constraint yet. -/
def isOpen (board : Nat → Nat) : Constraint → Bool
  | cell i => decide (board i = 0)
  | row r v => !(given board).rows r v
  | col c v => !(given board).cols c v
  | box b v => !(given board).boxes b v

/-- All constraints, in the order of the constructor's loops. -/
def all : List Constraint :=
  (List.range kCells).map cell ++
    (List.range 9).flatMap fun i => (List.range' 1 9).flatMap fun v => [row i v, col i v, box i v]

theorem all_length : all.length = 324 := by decide +kernel

/-- The names of the constraints of one value in a row, a column and a box with one index. -/
theorem unit_names (i v n : Nat) : n ∈ [row i v, col i v, box i v].map name ↔
    n = 100 + i * 10 + v ∨ n = 200 + i * 10 + v ∨ n = 300 + i * 10 + v := by
  simp [name, getRowCol, getColCol, getBoxCol, kRow, kCol, kBox]

theorem all_names_nodup : (all.map name).Nodup := by
  unfold all
  have hcells : ((List.range kCells).map cell).map name = List.range kCells := by
    rw [List.map_map]
    exact List.map_id _
  rw [List.map_append, hcells, List.map_flatMap]
  simp only [List.map_flatMap]
  refine List.nodup_append.mpr ⟨List.nodup_range, List.nodup_flatMap.mpr ⟨?_, ?_⟩, ?_⟩
  · intro i hi
    rw [List.mem_range] at hi
    refine List.nodup_flatMap.mpr ⟨?_, ?_⟩
    · intro v hv
      rw [List.mem_range'_1] at hv
      simp only [List.map_cons, List.map_nil, name, getRowCol, getColCol, getBoxCol, kRow, kCol, kBox,
        List.nodup_cons, List.mem_cons, List.not_mem_nil, or_false, not_or, not_false_eq_true,
        List.nodup_nil, and_true]
      omega
    · have hvalues : (List.range' 1 9).Nodup := List.nodup_range'
      refine hvalues.imp_of_mem fun {v w} hv hw hne n hnv hnw => ?_
      rw [List.mem_range'_1] at hv hw
      rw [unit_names] at hnv hnw
      omega
  · refine List.nodup_range.imp_of_mem fun {i j} hi hj hne n hni hnj => ?_
    rw [List.mem_range] at hi hj
    obtain ⟨v, hv, hni⟩ := List.mem_flatMap.mp hni
    obtain ⟨w, hw, hnj⟩ := List.mem_flatMap.mp hnj
    rw [List.mem_range'_1] at hv hw
    rw [unit_names] at hni hnj
    omega
  · intro n hn m hm he
    subst he
    obtain ⟨i, _, hm⟩ := List.mem_flatMap.mp hm
    obtain ⟨v, _, hm⟩ := List.mem_flatMap.mp hm
    rw [List.mem_range, kCells] at hn
    rw [unit_names] at hm
    omega

end Constraint

/-- The constraints that a value in a cell meets, in the order of its four nodes. -/
def constraintsOf (o : Nat × Nat) : List Constraint :=
  [.cell o.1, .row (rowOf o.1) o.2, .col (colOf o.1) o.2, .box (boxOf o.1) o.2]

def openConstraints (board : Nat → Nat) : List Constraint :=
  Constraint.all.filter (Constraint.isOpen board)

def choices : List (Nat × Nat) :=
  (List.range kCells).flatMap fun i => (List.range' 1 9).map fun v => (i, v)

/-- The values that the empty cells can still take. -/
def options (board : Nat → Nat) : List (Nat × Nat) :=
  choices.filter fun o => (constraintsOf o).all (Constraint.isOpen board)

theorem choices_length : choices.length = 729 := by decide +kernel

theorem openConstraints_length (board : Nat → Nat) : (openConstraints board).length ≤ 324 :=
  Constraint.all_length ▸ List.length_filter_le _ _

theorem options_length (board : Nat → Nat) : (options board).length ≤ 729 :=
  choices_length ▸ List.length_filter_le _ _

theorem open_names_nodup (board : Nat → Nat) :
    ((openConstraints board).map Constraint.name).Nodup :=
  Constraint.all_names_nodup.sublist (List.filter_sublist.map _)

/-! ## The loops of the constructor -/

section Loops

variable {σ α β : Type}

theorem foldlM_nested {f : σ → β → Option σ} {g : α → List β} {l : List α} {s : σ} :
    l.foldlM (fun s a => (g a).foldlM f s) s = (l.flatMap g).foldlM f s := by
  induction l generalizing s with
  | nil => rfl
  | cons a l ih =>
    rw [List.foldlM_cons, List.flatMap_cons, List.foldlM_append]
    simp only [ih]

end Loops

/-- The solver before the loops of the constructor. -/
def started (mem : Nodes) (board : Nat → Nat) : SudokuSolver where
  root := 0
  inout := board
  columns := fun _ => none
  stack := []
  nodes := (((((mem.clear 0).setCol 0 0).setName 0 0).setRight 0 0).setLeft 0 0)
  currNode := 1

theorem unit_columns (board : Nat → Nat) (i v : Nat) (s : SudokuSolver) :
    (do
      let s ← if (given board).rows i v then some s else s.appendColumn (getRowCol i v)
      let s ← if (given board).cols i v then some s else s.appendColumn (getColCol i v)
      if (given board).boxes i v then some s else s.appendColumn (getBoxCol i v)) =
    ([Constraint.row i v, .col i v, .box i v].filter (Constraint.isOpen board)).foldlM
      (fun s k => s.appendColumn k.name) s := by
  rw [List.foldlM_filter]
  simp only [List.foldlM_cons, List.foldlM_nil, Constraint.isOpen, Constraint.name,
    Bool.not_eq_true', bind_pure]
  cases (given board).rows i v <;> cases (given board).cols i v <;>
    cases (given board).boxes i v <;> rfl

theorem cell_options (board : Nat → Nat) (i : Nat) (s : SudokuSolver) :
    (if board i = 0 then
      (List.range' 1 9).foldlM (fun s v =>
        if (given board).rows (rowOf i) v || (given board).cols (colOf i) v ||
          (given board).boxes (boxOf i) v then some s else s.newOption i v) s
    else some s) =
    (((List.range' 1 9).map fun v => (i, v)).filter fun o =>
      (constraintsOf o).all (Constraint.isOpen board)).foldlM
      (fun s o => s.newOption o.1 o.2) s := by
  rw [List.foldlM_filter, List.foldlM_map]
  by_cases hi : board i = 0
  · rw [if_pos hi]
    congr 1
    funext s v
    simp only [constraintsOf, List.all_cons, List.all_nil, Constraint.isOpen, hi, decide_true,
      Bool.true_and, Bool.and_true]
    cases (given board).rows (rowOf i) v <;> cases (given board).cols (colOf i) v <;>
      cases (given board).boxes (boxOf i) v <;> rfl
  · rw [if_neg hi]
    simp only [constraintsOf, List.all_cons, List.all_nil, Constraint.isOpen, hi, decide_false,
      Bool.false_and, Bool.false_eq_true, if_false]
    generalize List.range' 1 9 = vs
    induction vs with
    | nil => rfl
    | cons v vs ih => exact ih

/-- The constructor appends the open constraints and then the options. -/
theorem new_eq (mem : Nodes) (board : Nat → Nat) :
    SudokuSolver.new mem board = (do
      let s ← (openConstraints board).foldlM (fun s k => s.appendColumn k.name)
        (started mem board)
      (options board).foldlM (fun s o => s.newOption o.1 o.2) s) := by
  have hstart : SudokuSolver.newColumn ⟨0, board, fun _ => none, [], mem, 0⟩ 0 =
      some (0, ⟨0, board, fun _ => none, [],
        (((mem.clear 0).setCol 0 0).setName 0 0), 1⟩) := rfl
  have hunits : ∀ s : SudokuSolver, ((List.range 9).foldlM (fun s i =>
      (List.range' 1 9).foldlM (fun s v => do
        let s ← if (given board).rows i v then some s else s.appendColumn (getRowCol i v)
        let s ← if (given board).cols i v then some s else s.appendColumn (getColCol i v)
        if (given board).boxes i v then some s else s.appendColumn (getBoxCol i v)) s) s) =
      (((List.range 9).flatMap fun i => (List.range' 1 9).flatMap fun v =>
        [Constraint.row i v, .col i v, .box i v]).filter (Constraint.isOpen board)).foldlM
        (fun s k => s.appendColumn k.name) s := by
    intro s
    simp only [unit_columns, foldlM_nested, List.filter_flatMap]
  have hcells : ∀ s : SudokuSolver, ((List.range kCells).foldlM (fun s i =>
      if board i = 0 then s.appendColumn i else some s) s) =
      (((List.range kCells).map Constraint.cell).filter (Constraint.isOpen board)).foldlM
        (fun s k => s.appendColumn k.name) s := by
    intro s
    rw [List.foldlM_filter, List.foldlM_map]
    simp only [Constraint.isOpen, Constraint.name, decide_eq_true_eq]
    rfl
  unfold SudokuSolver.new
  simp only [hunits, hcells, cell_options, foldlM_nested]
  rw [hstart]
  unfold openConstraints Constraint.all options choices
  rw [List.filter_append, List.foldlM_append, List.filter_flatMap]
  simp only [Option.bind_eq_bind, Option.bind_assoc, Option.bind_some, List.filter_flatMap]
  rfl

/-! ## The nodes made so far -/

/-- The columns of `names` and the rows are laid out, one node after the other. -/
structure Built (names : List Nat) (rows : List (List Nat)) (s : SudokuSolver) : Prop where
  root : s.root = 0
  curr : s.currNode = names.length + 1 + rows.flatten.length
  nodes : rows.flatten = List.range' (names.length + 1) rows.flatten.length
  columns : ∀ n c, s.columns n = some c ↔ ∃ k, names[k]? = some n ∧ c = k + 1
  header : s.nodes.horizontal.Ring 0 (List.range' 1 names.length)
  rings : ∀ r ∈ rows, ∃ n xs, r = n :: xs ∧ s.nodes.horizontal.Ring n xs
  tagged : ∀ n ∈ rows.flatten, s.columns (s.nodes.name n) = some (s.nodes.col n)
  vertical : ∀ c ∈ List.range' 1 names.length,
    s.nodes.vertical.Ring c (rows.flatten.filter (s.nodes.col · = c))
  size : ∀ c ∈ List.range' 1 names.length,
    s.nodes.size c = (rows.flatten.filter (s.nodes.col · = c)).length

variable {names : List Nat} {rows : List (List Nat)} {s : SudokuSolver}

namespace Built

theorem mem_nodes (hb : Built names rows s) {n : Nat} (hn : n ∈ rows.flatten) :
    names.length < n ∧ n < s.currNode := by
  rw [hb.nodes, List.mem_range'_1] at hn
  rw [hb.curr]
  omega

theorem nodup (hb : Built names rows s) : rows.flatten.Nodup := by
  rw [hb.nodes]
  exact List.nodup_range'

theorem column_mem (hb : Built names rows s) {n c : Nat} (h : s.columns n = some c) :
    c ∈ List.range' 1 names.length := by
  obtain ⟨k, hk, rfl⟩ := (hb.columns n c).mp h
  have hlt := (List.getElem?_eq_some_iff.mp hk).1
  rw [List.mem_range'_1]
  omega

theorem column_le (hb : Built names rows s) {n c : Nat} (h : s.columns n = some c) :
    c ≠ 0 ∧ c ≤ names.length := by
  have hmem := hb.column_mem h
  rw [List.mem_range'_1] at hmem
  omega

/-- Two names have one column only if they are the same. -/
theorem column_injective (hb : Built names rows s) {n m c : Nat} (hn : s.columns n = some c)
    (hm : s.columns m = some c) : n = m := by
  obtain ⟨k, hk, rfl⟩ := (hb.columns n c).mp hn
  obtain ⟨k', hk', he⟩ := (hb.columns m _).mp hm
  obtain rfl : k = k' := by omega
  exact Option.some.inj (hk.symm.trans hk')

/-- The rings of two columns have no node in common. -/
theorem vertical_disjoint (hb : Built names rows s) {c d m : Nat}
    (hc : c ∈ List.range' 1 names.length) (hd : d ∈ List.range' 1 names.length) (hne : c ≠ d)
    (hm : m ∈ c :: rows.flatten.filter (s.nodes.col · = c)) :
    m ∉ d :: rows.flatten.filter (s.nodes.col · = d) := by
  rw [List.mem_range'_1] at hc hd
  rw [List.mem_cons, List.mem_filter, decide_eq_true_eq] at hm ⊢
  rintro (rfl | ⟨hnode, hcol⟩)
  · rcases hm with he | ⟨hnode, _⟩
    · exact hne he.symm
    · have hlt := (hb.mem_nodes hnode).1
      omega
  · rcases hm with rfl | ⟨_, hcol'⟩
    · have hlt := (hb.mem_nodes hnode).1
      omega
    · exact hne (hcol'.symm.trans hcol)

/-- A new column is the last one, with no node in it. -/
theorem appendColumn (hb : Built names [] s) {n : Nat} (hn : n ∉ names)
    (hmax : s.currNode < kMaxNodes) :
    ∃ s', s.appendColumn n = some s' ∧ Built (names ++ [n]) [] s' ∧ s'.inout = s.inout ∧
      s'.stack = s.stack := by
  have hcurr : s.currNode = names.length + 1 := hb.curr
  have hfree : s.columns n = none := by
    cases hc : s.columns n with
    | none => rfl
    | some c =>
      obtain ⟨k, hk, _⟩ := (hb.columns n c).mp hc
      exact absurd (List.mem_of_getElem? hk) hn
  have hrange : List.range' 1 (names ++ [n]).length
      = List.range' 1 names.length ++ [s.currNode] := by
    rw [List.length_append, List.length_singleton, List.range'_concat, hcurr, Nat.one_mul,
      Nat.add_comm 1]
  have hnew : s.currNode ∉ 0 :: List.range' 1 names.length := by
    rw [List.mem_cons, List.mem_range'_1]
    omega
  unfold SudokuSolver.appendColumn SudokuSolver.newColumn
  rw [if_pos hfree, if_pos hmax]
  refine ⟨_, rfl, ⟨hb.root, ?_, ?_, ?_, ?_, ?_, ?_, ?_, ?_⟩, rfl, rfl⟩
  · rw [List.length_append, List.length_singleton, hcurr]
    rfl
  · simp
  · intro m c
    dsimp only
    by_cases hm : m = n
    · subst hm
      rw [Function.update_self, Option.some.injEq]
      constructor
      · rintro rfl
        exact ⟨names.length, List.getElem?_concat_length, hcurr⟩
      · rintro ⟨k, hk, rfl⟩
        rcases Nat.lt_trichotomy k names.length with hlt | rfl | hgt
        · rw [List.getElem?_append_left hlt] at hk
          exact absurd (List.mem_of_getElem? hk) hn
        · exact hcurr
        · rw [List.getElem?_eq_none (by simp; omega)] at hk
          cases hk
    · rw [Function.update_of_ne hm, hb.columns m c]
      constructor
      · rintro ⟨k, hk, rfl⟩
        exact ⟨k, by rw [List.getElem?_append_left (List.getElem?_eq_some_iff.mp hk).1, hk], rfl⟩
      · rintro ⟨k, hk, rfl⟩
        rcases Nat.lt_trichotomy k names.length with hlt | rfl | hgt
        · rw [List.getElem?_append_left hlt] at hk
          exact ⟨k, hk, rfl⟩
        · rw [List.getElem?_concat_length] at hk
          exact absurd (Option.some.inj hk).symm hm
        · rw [List.getElem?_eq_none (by simp; omega)] at hk
          cases hk
  · rw [hrange]
    have hring := (hb.header.isolate_other hnew).insertBefore hnew
    rw [← hb.root] at hring
    rw [← hb.root]
    exact hring
  · simp
  · simp
  · intro c hc
    rw [hrange, List.mem_append, List.mem_singleton] at hc
    rcases hc with hc | rfl
    · have hne : c ≠ s.currNode := fun he => hnew (he ▸ List.mem_cons_of_mem 0 hc)
      exact (hb.vertical c hc).isolate_other (by simpa using Ne.symm hne)
    · exact Links.isolate_self s.nodes.vertical s.currNode
  · intro c hc
    rw [hrange, List.mem_append, List.mem_singleton] at hc
    rcases hc with hc | rfl
    · have hne : c ≠ s.currNode := fun he => hnew (he ▸ List.mem_cons_of_mem 0 hc)
      have hsize := hb.size c hc
      change Function.update s.nodes.size s.currNode 0 c = _
      rw [Function.update_of_ne hne]
      simpa using hsize
    · change Function.update s.nodes.size s.currNode 0 s.currNode = _
      rw [Function.update_self]
      simp

/-- A new node is the last one of its column, and a row of its own. -/
theorem newRow (hb : Built names rows s) {n c : Nat} (hn : s.columns n = some c)
    (hmax : s.currNode < kMaxNodes) :
    ∃ s', s.newRow n = some (s.currNode, s') ∧ Built names (rows ++ [[s.currNode]]) s' ∧
      s'.nodes.name = Function.update s.nodes.name s.currNode n ∧ s'.columns = s.columns ∧
      s'.currNode = s.currNode + 1 ∧ s'.inout = s.inout ∧ s'.stack = s.stack := by
  have hc := hb.column_mem hn
  have hcurr := hb.curr
  have hle := hb.column_le hn
  have hcne : c ≠ s.currNode := by omega
  have hflat : (rows ++ [[s.currNode]]).flatten = rows.flatten ++ [s.currNode] := by simp
  have hold : ∀ m ∈ rows.flatten, m ≠ s.currNode := by
    intro m hm
    have hlt := (hb.mem_nodes hm).2
    omega
  have hheader : s.currNode ∉ 0 :: List.range' 1 names.length := by
    rw [List.mem_cons, List.mem_range'_1]
    omega
  have hring : ∀ d ∈ List.range' 1 names.length,
      s.currNode ∉ d :: rows.flatten.filter (s.nodes.col · = d) := by
    intro d hd
    rw [List.mem_cons, not_or]
    refine ⟨fun he => hheader (he ▸ List.mem_cons_of_mem 0 hd), fun hm => ?_⟩
    exact hold _ (List.mem_of_mem_filter hm) rfl
  have hfilter : ∀ d, (rows.flatten ++ [s.currNode]).filter
      (Function.update (Function.update s.nodes.col s.currNode c) s.currNode c · = d)
      = rows.flatten.filter (s.nodes.col · = d) ++ if c = d then [s.currNode] else [] := by
    intro d
    have hkeep : rows.flatten.filter
        (Function.update (Function.update s.nodes.col s.currNode c) s.currNode c · = d)
        = rows.flatten.filter (s.nodes.col · = d) := by
      refine List.filter_congr fun m hm => ?_
      rw [Function.update_of_ne (hold m hm), Function.update_of_ne (hold m hm)]
    rw [List.filter_append, hkeep, List.filter_singleton, Function.update_self]
    by_cases hcd : c = d
    · rw [if_pos hcd, decide_eq_true hcd]
      rfl
    · rw [if_neg hcd, decide_eq_false hcd]
      rfl
  have hcr : (((s.nodes.clear s.currNode).setName s.currNode n).setCol s.currNode c).col s.currNode
      = c := Function.update_self _ _ _
  unfold SudokuSolver.newRow
  rw [hn]
  dsimp only
  rw [if_pos hmax, hcr]
  refine ⟨_, rfl, ⟨hb.root, ?_, ?_, hb.columns, ?_, ?_, ?_, ?_, ?_⟩, rfl, rfl, rfl, rfl, rfl⟩
  · rw [hflat, List.length_append, List.length_singleton, hcurr]
    rfl
  · rw [hflat, List.length_append, List.length_singleton, List.range'_concat, Nat.one_mul, ← hb.nodes,
      hcurr]
  · exact hb.header.isolate_other hheader
  · intro r hr
    rw [List.mem_append, List.mem_singleton] at hr
    rcases hr with hr | rfl
    · obtain ⟨m, xs, rfl, hxs⟩ := hb.rings r hr
      refine ⟨m, xs, rfl, hxs.isolate_other fun hm => ?_⟩
      exact hold _ (List.mem_flatten.mpr ⟨_, hr, hm⟩) rfl
    · exact ⟨s.currNode, [], rfl, Links.isolate_self s.nodes.horizontal s.currNode⟩
  · intro m hm
    rw [hflat, List.mem_append, List.mem_singleton] at hm
    change s.columns (Function.update s.nodes.name s.currNode n m)
      = some (Function.update (Function.update s.nodes.col s.currNode c) s.currNode c m)
    rcases hm with hm | rfl
    · rw [Function.update_of_ne (hold m hm), Function.update_of_ne (hold m hm),
        Function.update_of_ne (hold m hm)]
      exact hb.tagged m hm
    · rw [Function.update_self, Function.update_self]
      exact hn
  · intro d hd
    rw [hflat]
    refine Eq.subst (motive := fun xs => Links.Ring _ d xs) (hfilter d).symm ?_
    have hiso := (hb.vertical c hc).isolate_other (hring c hc)
    by_cases hcd : c = d
    · subst hcd
      rw [if_pos rfl]
      exact hiso.insertBefore (hring c hc)
    · rw [if_neg hcd, List.append_nil]
      have hout : ∀ m ∈ c :: rows.flatten.filter (s.nodes.col · = c),
          m ∉ d :: rows.flatten.filter (s.nodes.col · = d) :=
        fun m hm => hb.vertical_disjoint hc hd hcd hm
      exact ((hb.vertical d hd).isolate_other (hring d hd)).insertBefore_other
        (hout c List.mem_cons_self) (hring d hd) (hout _ hiso.prev_head_mem) hcne
  · intro d hd
    rw [hflat]
    have hdne : d ≠ s.currNode := fun he => hheader (he ▸ List.mem_cons_of_mem 0 hd)
    refine Eq.subst (motive := fun xs => _ = (List.length xs : Int)) (hfilter d).symm ?_
    change Function.update (Function.update s.nodes.size s.currNode 0) c
      (Function.update s.nodes.size s.currNode 0 c + 1) d = _
    rw [Function.update_of_ne hcne]
    by_cases hcd : c = d
    · subst hcd
      rw [Function.update_self, if_pos rfl, List.length_append, hb.size c hc]
      rfl
    · rw [Function.update_of_ne (Ne.symm hcd), Function.update_of_ne hdne, if_neg hcd,
        List.append_nil]
      exact hb.size d hd

/-- A node that is a row of its own joins the row before it. -/
theorem putLeft {n y : Nat} {xs : List Nat} {more : List (List Nat)}
    (hb : Built names (rows ++ (n :: xs) :: [y] :: more) s) :
    Built names (rows ++ (n :: (xs ++ [y])) :: more)
      { s with nodes := s.nodes.putLeft n y } := by
  have hflat : (rows ++ (n :: (xs ++ [y])) :: more).flatten
      = (rows ++ (n :: xs) :: [y] :: more).flatten := by simp
  have hnodup := hb.nodup
  have hrow : (n :: xs) ∈ rows ++ (n :: xs) :: [y] :: more := by simp
  obtain ⟨n', xs', he, hring⟩ := hb.rings _ hrow
  cases he
  have hy : y ∉ n :: xs := by
    intro hmem
    have hsub : ((n :: xs) ++ [y]).Nodup := hnodup.sublist (by simp)
    exact (List.nodup_append.mp hsub).2.2 y hmem y List.mem_cons_self rfl
  have hyn : n ≠ y := fun he => hy (he ▸ List.mem_cons_self)
  have hbig : ∀ m, m ∈ (n :: xs) ++ [y] → names.length < m := by
    intro m hm
    refine (hb.mem_nodes ?_).1
    rw [List.flatten_append, List.flatten_cons, List.flatten_cons]
    simp only [List.mem_append] at hm ⊢
    tauto
  have hother : ∀ (x : Nat) (zs : List Nat), s.nodes.horizontal.Ring x zs →
      (∀ m ∈ (n :: xs) ++ [y], m ∉ x :: zs) →
      (s.nodes.horizontal.insertBefore n y).Ring x zs := by
    intro x zs hz hout
    exact hz.insertBefore_other (hout n (by simp)) (hout y (by simp))
      (hout _ (List.mem_append_left _ hring.prev_head_mem)) hyn
  refine ⟨hb.root, ?_, ?_, hb.columns, ?_, ?_, ?_, ?_, ?_⟩
  · rw [hflat]
    exact hb.curr
  · rw [hflat]
    exact hb.nodes
  · refine hother _ _ hb.header fun m hm hmem => ?_
    have hlt := hbig m hm
    rw [List.mem_cons, List.mem_range'_1] at hmem
    omega
  · intro r hr
    rw [List.mem_append, List.mem_cons] at hr
    rcases hr with hr | rfl | hr
    · obtain ⟨x, zs, rfl, hz⟩ := hb.rings r (by simp [hr])
      refine ⟨x, zs, rfl, hother x zs hz fun m hm hmem => ?_⟩
      rw [List.flatten_append] at hnodup
      refine (List.nodup_append.mp hnodup).2.2 m (List.mem_flatten.mpr ⟨_, hr, hmem⟩) m ?_ rfl
      rw [List.flatten_cons, List.flatten_cons, ← List.append_assoc]
      exact List.mem_append_left _ hm
    · exact ⟨n, xs ++ [y], rfl, hring.insertBefore hy⟩
    · obtain ⟨x, zs, rfl, hz⟩ := hb.rings r (by simp [hr])
      refine ⟨x, zs, rfl, hother x zs hz fun m hm hmem => ?_⟩
      rw [List.flatten_append, List.flatten_cons, List.flatten_cons, ← List.append_assoc (n :: xs)]
        at hnodup
      exact (List.nodup_append.mp (List.nodup_append.mp hnodup).2.1).2.2 m hm m
        (List.mem_flatten.mpr ⟨_, hr, hmem⟩) rfl
  · rw [hflat]
    exact hb.tagged
  · rw [hflat]
    exact hb.vertical
  · rw [hflat]
    exact hb.size

/-- The four nodes of an option make one row. -/
theorem newOption (hb : Built names rows s) {i v : Nat}
    (hopen : ∀ k ∈ constraintsOf (i, v), ∃ c, s.columns k.name = some c)
    (hmax : s.currNode + 3 < kMaxNodes) :
    ∃ s' r, s.newOption i v = some s' ∧ Built names (rows ++ [r]) s' ∧ r.length = 4 ∧
      r.map s'.nodes.name = (constraintsOf (i, v)).map Constraint.name ∧
      (∀ n < s.currNode, s'.nodes.name n = s.nodes.name n) ∧ s'.columns = s.columns ∧
      s'.currNode = s.currNode + 4 ∧ s'.inout = s.inout ∧ s'.stack = s.stack := by
  obtain ⟨c₀, h₀⟩ := hopen (.cell i) (by simp [constraintsOf])
  obtain ⟨c₁, h₁⟩ := hopen (.row (rowOf i) v) (by simp [constraintsOf])
  obtain ⟨c₂, h₂⟩ := hopen (.col (colOf i) v) (by simp [constraintsOf])
  obtain ⟨c₃, h₃⟩ := hopen (.box (boxOf i) v) (by simp [constraintsOf])
  obtain ⟨s₀, hr₀, hb₀, hn₀, hk₀, hp₀, hi₀, ht₀⟩ := hb.newRow h₀ (by omega)
  obtain ⟨s₁, hr₁, hb₁, hn₁, hk₁, hp₁, hi₁, ht₁⟩ := hb₀.newRow (by rw [hk₀]; exact h₁) (by omega)
  obtain ⟨s₂, hr₂, hb₂, hn₂, hk₂, hp₂, hi₂, ht₂⟩ :=
    hb₁.newRow (by rw [hk₁, hk₀]; exact h₂) (by omega)
  obtain ⟨s₃, hr₃, hb₃, hn₃, hk₃, hp₃, hi₃, ht₃⟩ :=
    hb₂.newRow (by rw [hk₂, hk₁, hk₀]; exact h₃) (by omega)
  have hlaid : Built names (rows ++ [s.currNode] :: [s₀.currNode] :: [s₁.currNode] ::
      [[s₂.currNode]]) s₃ := by
    simpa using hb₃
  have hjoined := hlaid.putLeft.putLeft.putLeft
  refine ⟨_, _, ?_, hjoined, rfl, ?_, ?_, ?_, ?_, ?_, ?_⟩
  · unfold SudokuSolver.newOption
    simp only [Constraint.name] at hr₀ hr₁ hr₂ hr₃
    rw [hr₀]
    simp only [Option.bind_eq_bind, Option.bind_some]
    rw [hr₁]
    simp only [Option.bind_some]
    rw [hr₂]
    simp only [Option.bind_some]
    rw [hr₃]
    rfl
  · change [s.currNode, s₀.currNode, s₁.currNode, s₂.currNode].map s₃.nodes.name = _
    have hne : s.currNode ≠ s₀.currNode ∧ s.currNode ≠ s₁.currNode ∧ s.currNode ≠ s₂.currNode ∧
        s₀.currNode ≠ s₁.currNode ∧ s₀.currNode ≠ s₂.currNode ∧ s₁.currNode ≠ s₂.currNode := by
      omega
    simp only [hn₃, hn₂, hn₁, hn₀, List.map_cons, List.map_nil, Function.update_self,
      Function.update_of_ne hne.1, Function.update_of_ne hne.2.1, Function.update_of_ne hne.2.2.1,
      Function.update_of_ne hne.2.2.2.1, Function.update_of_ne hne.2.2.2.2.1,
      Function.update_of_ne hne.2.2.2.2.2, constraintsOf]
  · intro n hn
    change s₃.nodes.name n = _
    rw [hn₃, hn₂, hn₁, hn₀, hp₂, hp₁, hp₀]
    repeat rw [Function.update_of_ne (by omega)]
  · exact hk₃.trans (hk₂.trans (hk₁.trans hk₀))
  · change s₃.currNode = _
    omega
  · exact hi₃.trans (hi₂.trans (hi₁.trans hi₀))
  · exact ht₃.trans (ht₂.trans (ht₁.trans ht₀))

end Built

/-! ## The finished matrix -/

/-- The constraint is one of the nine rows, columns and boxes with one of the nine values. -/
def Constraint.InRange : Constraint → Prop
  | .cell i => i < kCells
  | .row a v | .col a v | .box a v => a < 9 ∧ 1 ≤ v ∧ v ≤ 9

theorem Constraint.mem_all {k : Constraint} : k ∈ Constraint.all ↔ k.InRange := by
  cases k <;>
    simp only [all, InRange, List.mem_append, List.mem_map, List.mem_flatMap, List.mem_range,
      List.mem_range'_1, List.mem_cons, List.not_mem_nil, reduceCtorEq, cell.injEq, row.injEq,
      col.injEq, box.injEq, or_false, false_or, and_false, exists_false, exists_eq_right] <;>
    constructor
  case row.mp | col.mp | box.mp =>
    rintro ⟨a, ha, v, hv, rfl, rfl⟩
    omega
  case row.mpr | col.mpr | box.mpr =>
    rintro ⟨ha, hv⟩
    exact ⟨_, ha, _, by omega, rfl, rfl⟩

theorem mem_choices {o : Nat × Nat} : o ∈ choices ↔ o.1 < kCells ∧ 1 ≤ o.2 ∧ o.2 ≤ 9 := by
  simp only [choices, List.mem_flatMap, List.mem_map, List.mem_range, List.mem_range'_1]
  constructor
  · rintro ⟨i, hi, v, hv, rfl⟩
    exact ⟨hi, by omega⟩
  · rintro ⟨hi, hv⟩
    exact ⟨o.1, hi, o.2, by omega, rfl⟩

theorem units_lt {i : Nat} (hi : i < kCells) : rowOf i < 9 ∧ colOf i < 9 ∧ boxOf i < 9 := by
  unfold boxOf rowOf colOf
  unfold kCells at hi
  omega

theorem constraintsOf_inRange {o : Nat × Nat} (ho : o ∈ choices) {k : Constraint}
    (hk : k ∈ constraintsOf o) : k.InRange := by
  obtain ⟨hi, hv⟩ := mem_choices.mp ho
  obtain ⟨hr, hc, hb⟩ := units_lt hi
  simp only [constraintsOf, List.mem_cons, List.not_mem_nil, or_false] at hk
  rcases hk with rfl | rfl | rfl | rfl
  · exact hi
  · exact ⟨hr, hv⟩
  · exact ⟨hc, hv⟩
  · exact ⟨hb, hv⟩

/-- An option only meets open constraints. -/
theorem constraintsOf_open {board : Nat → Nat} {o : Nat × Nat} (ho : o ∈ options board)
    {k : Constraint} (hk : k ∈ constraintsOf o) : k ∈ openConstraints board := by
  obtain ⟨hchoice, hall⟩ := List.mem_filter.mp ho
  refine List.mem_filter.mpr ⟨Constraint.mem_all.mpr (constraintsOf_inRange hchoice hk), ?_⟩
  exact List.all_eq_true.mp hall k hk

theorem built_started (mem : Nodes) (board : Nat → Nat) : Built [] [] (started mem board) := by
  refine ⟨rfl, rfl, rfl, ?_, ?_, by simp, by simp, by simp, by simp⟩
  · intro n c
    simp [started]
  · exact Links.ring_singleton (Function.update_self 0 0 (Function.update mem.right 0 0))
      (Function.update_self 0 0 (Function.update mem.left 0 0))

theorem appendColumns_built :
    ∀ (ks : List Constraint) (names : List Nat) (s : SudokuSolver), Built names [] s →
      (names ++ ks.map Constraint.name).Nodup → s.currNode + ks.length ≤ kMaxNodes →
      ∃ s', ks.foldlM (fun s k => s.appendColumn k.name) s = some s' ∧
        Built (names ++ ks.map Constraint.name) [] s' ∧ s'.inout = s.inout ∧ s'.stack = s.stack := by
  intro ks
  induction ks with
  | nil =>
    intro names s hb _ _
    exact ⟨s, rfl, by simpa using hb, rfl, rfl⟩
  | cons k ks ih =>
    intro names s hb hnodup hmax
    rw [List.length_cons] at hmax
    rw [List.map_cons] at hnodup
    have hnew : k.name ∉ names := fun hk =>
      (List.nodup_append.mp hnodup).2.2 _ hk _ List.mem_cons_self rfl
    obtain ⟨s₁, hs₁, hb₁, hi₁, ht₁⟩ := hb.appendColumn hnew (by omega)
    have hcurr : s₁.currNode = s.currNode + 1 := by
      rw [hb.curr, hb₁.curr, List.length_append]
      rfl
    have hassoc : names ++ k.name :: ks.map Constraint.name
        = (names ++ [k.name]) ++ ks.map Constraint.name := by simp
    obtain ⟨s', hs', hb', hi', ht'⟩ := ih (names ++ [k.name]) s₁ hb₁ (hassoc ▸ hnodup) (by omega)
    refine ⟨s', ?_, ?_, hi'.trans hi₁, ht'.trans ht₁⟩
    · rw [List.foldlM_cons, hs₁]
      exact hs'
    · rw [List.map_cons, hassoc]
      exact hb'

theorem newOptions_built :
    ∀ (os : List (Nat × Nat)) (rows : List (List Nat)) (s : SudokuSolver), Built names rows s →
      (∀ o ∈ os, ∀ k ∈ constraintsOf o, k.name ∈ names) →
      s.currNode + 4 * os.length ≤ kMaxNodes →
      ∃ s' more, os.foldlM (fun s o => s.newOption o.1 o.2) s = some s' ∧
        Built names (rows ++ more) s' ∧
        more.map (·.map s'.nodes.name)
          = os.map (fun o => (constraintsOf o).map Constraint.name) ∧
        (∀ n < s.currNode, s'.nodes.name n = s.nodes.name n) ∧
        s'.currNode = s.currNode + 4 * os.length ∧ s'.inout = s.inout ∧ s'.stack = s.stack := by
  intro os
  induction os with
  | nil =>
    intro rows s hb _ _
    exact ⟨s, [], rfl, by simpa using hb, rfl, fun _ _ => rfl, rfl, rfl, rfl⟩
  | cons o os ih =>
    intro rows s hb hopen hmax
    rw [List.length_cons] at hmax
    have hcols : ∀ k ∈ constraintsOf (o.1, o.2), ∃ c, s.columns k.name = some c := by
      intro k hk
      obtain ⟨j, hj⟩ := List.mem_iff_getElem?.mp (hopen o List.mem_cons_self k hk)
      exact ⟨j + 1, (hb.columns _ _).mpr ⟨j, hj, rfl⟩⟩
    obtain ⟨s₁, r, hs₁, hb₁, _, hr, hn₁, _, hp₁, hi₁, ht₁⟩ := hb.newOption hcols (by omega)
    obtain ⟨s', more, hs', hb', hmore, hn', hp', hi', ht'⟩ := ih (rows ++ [r]) s₁ hb₁
      (fun o' ho' => hopen o' (List.mem_cons_of_mem o ho')) (by omega)
    have hkeep : r.map s'.nodes.name = r.map s₁.nodes.name := by
      refine List.map_congr_left fun n hn => hn' n (hb₁.mem_nodes ?_).2
      exact List.mem_flatten.mpr ⟨r, by simp, hn⟩
    refine ⟨s', r :: more, ?_, ?_, ?_, ?_, ?_, hi'.trans hi₁, ht'.trans ht₁⟩
    · rw [List.foldlM_cons, hs₁]
      exact hs'
    · simpa using hb'
    · rw [List.map_cons, List.map_cons, hkeep, hr, hmore]
    · intro n hn
      rw [hn' n (by omega), hn₁ n hn]
    · rw [List.length_cons]
      omega

/-- The constructor never fails an assertion: no column is appended twice, every node has a
column, and `kMaxNodes` nodes are enough. -/
theorem new_built (mem : Nodes) (board : Nat → Nat) :
    ∃ s rows, SudokuSolver.new mem board = some s ∧
      Built ((openConstraints board).map Constraint.name) rows s ∧
      rows.map (·.map s.nodes.name)
        = (options board).map (fun o => (constraintsOf o).map Constraint.name) ∧
      s.currNode ≤ kMaxNodes ∧ s.inout = board ∧ s.stack = [] := by
  have hcols := openConstraints_length board
  have hopts := options_length board
  obtain ⟨s₁, hs₁, hb₁, hi₁, ht₁⟩ := appendColumns_built (openConstraints board) [] _
    (built_started mem board) (by simpa using open_names_nodup board)
    (by simp only [started, kMaxNodes]; omega)
  rw [List.nil_append] at hb₁
  have hcurr : s₁.currNode = (openConstraints board).length + 1 := by
    rw [hb₁.curr, List.length_map]
    rfl
  obtain ⟨s, rows, hs, hb, hnames, _, hp, hi, ht⟩ := newOptions_built (options board) [] s₁ hb₁
    (fun o ho k hk => List.mem_map_of_mem (constraintsOf_open ho hk))
    (by simp only [kMaxNodes]; omega)
  refine ⟨s, rows, ?_, hb, hnames, by simp only [kMaxNodes]; omega, hi.trans hi₁, ht.trans ht₁⟩
  rw [new_eq, hs₁]
  exact hs

/-- Within an option all names differ. -/
theorem names_nodup_of_option {o : Nat × Nat} (ho : o ∈ choices) :
    ((constraintsOf o).map Constraint.name).Nodup := by
  obtain ⟨hi, hv⟩ := mem_choices.mp ho
  obtain ⟨hr, hc, hb⟩ := units_lt hi
  unfold kCells at hi
  simp only [constraintsOf, List.map_cons, List.map_nil, Constraint.name, getRowCol, getColCol,
    getBoxCol, kRow, kCol, kBox, List.nodup_cons, List.mem_cons, List.not_mem_nil, or_false, not_or,
    not_false_eq_true, List.nodup_nil, and_true]
  omega

theorem row_names {board : Nat → Nat}
    (hnames : rows.map (·.map s.nodes.name)
      = (options board).map (fun o => (constraintsOf o).map Constraint.name)) {r : List Nat}
    (hr : r ∈ rows) :
    ∃ o ∈ options board, r.map s.nodes.name = (constraintsOf o).map Constraint.name := by
  have hmem : r.map s.nodes.name ∈ rows.map (·.map s.nodes.name) := List.mem_map_of_mem hr
  rw [hnames] at hmem
  obtain ⟨o, ho, he⟩ := List.mem_map.mp hmem
  exact ⟨o, ho, he.symm⟩

/-- The finished layout as a matrix. -/
def Built.matrix {board : Nat → Nat} (hb : Built names rows s)
    (hnames : rows.map (·.map s.nodes.name)
      = (options board).map (fun o => (constraintsOf o).map Constraint.name)) : Matrix where
  root := 0
  columns := List.range' 1 names.length
  rows := rows
  col := s.nodes.col
  name := s.nodes.name
  nodup := by
    rw [hb.nodes]
    refine List.nodup_cons.mpr ⟨?_, List.nodup_append.mpr ⟨List.nodup_range', List.nodup_range', ?_⟩⟩
    · rw [List.mem_append, List.mem_range'_1, List.mem_range'_1]
      omega
    · intro a ha b hmem
      rw [List.mem_range'_1] at ha hmem
      omega
  col_mem := fun n hn => hb.column_mem (hb.tagged n hn)
  cols_nodup := by
    intro r hr
    obtain ⟨o, ho, he⟩ := row_names hnames hr
    have hnd : (r.map s.nodes.name).Nodup :=
      he ▸ names_nodup_of_option (List.mem_of_mem_filter ho)
    refine List.Nodup.map_on (fun n hn m hm hcol => ?_) (List.Nodup.of_map _ hnd)
    have hn' := hb.tagged n (List.mem_flatten.mpr ⟨r, hr, hn⟩)
    have hm' := hb.tagged m (List.mem_flatten.mpr ⟨r, hr, hm⟩)
    rw [hcol] at hn'
    exact List.inj_on_of_nodup_map hnd hn hm (hb.column_injective hn' hm')

variable {board : Nat → Nat}

/-- In the finished layout no column is covered. -/
theorem Built.holds (hb : Built names rows s)
    (hnames : rows.map (·.map s.nodes.name)
      = (options board).map (fun o => (constraintsOf o).map Constraint.name)) :
    Holds (hb.matrix hnames) (hb.matrix hnames).columns.toFinset s.nodes := by
  have hstand : ∀ n, (hb.matrix hnames).Standing (hb.matrix hnames).columns.toFinset n := by
    intro n r hr _ m hm
    exact List.mem_toFinset.mpr
      ((hb.matrix hnames).col_mem m (List.mem_flatten.mpr ⟨r, hr, hm⟩))
  have hcolumn : ∀ c, ((hb.matrix hnames).inColumn (hb.matrix hnames).columns.toFinset c).filter
      (· ∉ (∅ : Finset Nat)) = rows.flatten.filter (s.nodes.col · = c) := by
    intro c
    unfold Matrix.inColumn
    rw [List.filter_filter]
    refine List.filter_congr fun n _ => ?_
    have hs := hstand n
    change (decide (n ∉ (∅ : Finset Nat)) && decide (s.nodes.col n = c ∧ _)) = _
    simp [hs]
  refine ⟨⟨fun _ _ => rfl, fun _ _ => rfl, ?_, ?_, ?_⟩, ?_, ?_⟩
  · intro a n b hr
    obtain ⟨x, xs, he, hring⟩ := hb.rings _ hr
    cases a with
    | nil =>
      cases he
      simpa using hring
    | cons y a =>
      cases he
      exact hring.rotate
  · intro c hc
    rw [hcolumn]
    exact hb.vertical c (List.mem_toFinset.mp hc)
  · intro c hc
    rw [hcolumn]
    exact hb.size c (List.mem_toFinset.mp hc)
  · exact fun c hc => List.mem_toFinset.mp hc
  · have hall : (hb.matrix hnames).columns.filter (· ∈ (hb.matrix hnames).columns.toFinset)
        = (hb.matrix hnames).columns :=
      List.filter_eq_self.mpr fun c hc => by simpa using hc
    rw [hall]
    exact hb.header

end RyanNetwork.Sudoku

import RyanNetwork.Sudoku.Puzzle

/-!
# The answer depends on the puzzle alone

The constructor writes a node before it links it, and no link leads to a place without a
node. So the matrix that it lays out is the same whatever the memory held, and the search on
that matrix, which `solve` follows, is the same with it.
-/
namespace RyanNetwork.Sudoku

open Lib SudokuSolver

set_option autoImplicit false

variable {names : List Nat} {rows rows' : List (List Nat)} {s s' : SudokuSolver}
  {board : Nat → Nat}

/-- Links hold a matrix whose headers and names they do not disagree with on a node. -/
theorem Holds.congr {M M' : Matrix} {S : Finset Nat} {h : Nodes} (hh : Holds M S h)
    (hroot : M'.root = M.root) (hcolumns : M'.columns = M.columns) (hrows : M'.rows = M.rows)
    (hcol : ∀ n ∈ M.rows.flatten, M'.col n = M.col n)
    (hname : ∀ n ∈ M.rows.flatten, M'.name n = M.name n) : Holds M' S h := by
  have hstand : ∀ n, M'.Standing S n ↔ M.Standing S n := by
    intro n
    unfold Matrix.Standing
    rw [hrows]
    constructor
    · intro hall r hr hn m hm
      rw [← hcol m (Matrix.mem_nodes hr hm)]
      exact hall r hr hn m hm
    · intro hall r hr hn m hm
      rw [hcol m (Matrix.mem_nodes hr hm)]
      exact hall r hr hn m hm
  have hcolumn : ∀ c, M'.inColumn S c = M.inColumn S c := by
    intro c
    unfold Matrix.inColumn
    rw [hrows]
    refine List.filter_congr fun n hn => ?_
    rw [hcol n hn, decide_eq_decide]
    exact and_congr_right fun _ => hstand n
  refine ⟨⟨?_, ?_, ?_, ?_, ?_⟩, ?_, ?_⟩
  · intro n hn
    rw [hrows] at hn
    rw [hcol n hn]
    exact hh.col n hn
  · intro n hn
    rw [hrows] at hn
    rw [hname n hn]
    exact hh.name n hn
  · rw [hrows]
    exact hh.rows
  · intro c hc
    rw [hcolumn]
    exact hh.columns c hc
  · intro c hc
    rw [hcolumn]
    exact hh.size c hc
  · rw [hcolumns]
    exact hh.active
  · rw [hroot, hcolumns]
    exact hh.header

/-- Two layouts of one board have the same rows, as the nodes are numbered consecutively. -/
theorem Built.rows_unique (hb : Built names rows s) (hb' : Built names rows' s')
    (hnames : rows.map (·.map s.nodes.name)
      = (options board).map (fun o => (constraintsOf o).map Constraint.name))
    (hnames' : rows'.map (·.map s'.nodes.name)
      = (options board).map (fun o => (constraintsOf o).map Constraint.name)) : rows = rows' := by
  have hlengths : ∀ (t : SudokuSolver) (l : List (List Nat)),
      (l.map (·.map t.nodes.name)).map List.length = l.map List.length := by
    intro t l
    rw [List.map_map]
    exact List.map_congr_left fun r _ => List.length_map _
  have hshape : rows.map List.length = rows'.map List.length := by
    rw [← hlengths s rows, ← hlengths s' rows', hnames, hnames']
  have hsum : rows.flatten.length = rows'.flatten.length := by
    rw [List.length_flatten, List.length_flatten, hshape]
  refine List.eq_iff_flatten_eq.mpr ⟨?_, hshape⟩
  rw [hb.nodes, hb'.nodes, hsum]

/-- They give each node the same name and the same header. -/
theorem Built.tags_unique (hb : Built names rows s) (hb' : Built names rows s')
    (hnames : rows.map (·.map s.nodes.name) = rows.map (·.map s'.nodes.name)) :
    ∀ n ∈ rows.flatten, s.nodes.name n = s'.nodes.name n ∧ s.nodes.col n = s'.nodes.col n := by
  intro n hn
  obtain ⟨r, hr, hnr⟩ := List.mem_flatten.mp hn
  have hrow : r.map s.nodes.name = r.map s'.nodes.name := List.map_inj_left.mp hnames r hr
  have hname : s.nodes.name n = s'.nodes.name n := List.map_inj_left.mp hrow n hnr
  refine ⟨hname, ?_⟩
  have htag := hb.tagged n hn
  rw [hname, hb.columns, ← hb'.columns, hb'.tagged n hn] at htag
  exact (Option.some.inj htag).symm

/-- Whatever the memory held, `solve` returns the same and leaves the same board. -/
theorem solve_memory (mem mem' : Nodes) (board : Nat → Nat) {fuel fuel' : Nat}
    (hfuel : kMaxNodes < fuel) (hfuel' : kMaxNodes < fuel') :
    ∃ s s' found t t', SudokuSolver.new mem board = some s ∧
      SudokuSolver.new mem' board = some s' ∧ s.solve fuel fuel = some (found, t) ∧
      s'.solve fuel' fuel' = some (found, t') ∧ t.inout = t'.inout := by
  obtain ⟨s, rows, hs, hb, hnames, hcurr, hinout, hstack⟩ := new_built mem board
  obtain ⟨s', rows', hs', hb', hnames', _, hinout', hstack'⟩ := new_built mem' board
  obtain rfl := hb.rows_unique hb' hnames hnames'
  have htags := hb.tags_unique hb' (hnames.trans hnames'.symm)
  have hh' : Holds (hb.matrix hnames) (hb.matrix hnames).columns.toFinset s'.nodes :=
    (hb'.holds hnames').congr rfl rfl rfl (fun n hn => (htags n hn).2) fun n hn => (htags n hn).1
  have hfollows := solve_follows_board hb hnames hcurr hfuel hb.root hstack (hb.holds hnames)
  have hfollows' := solve_follows_board hb hnames hcurr hfuel' hb'.root hstack' hh'
  have hcard := columns_card_lt hb hnames hcurr
  have hsame : (hb.matrix hnames).search fuel' (hb.matrix hnames).columns.toFinset
      = (hb.matrix hnames).search fuel (hb.matrix hnames).columns.toFinset :=
    ExactCover.search_depth (hb.matrix hnames).branching fuel' fuel _ (Finset.Subset.refl _)
      (by omega) (by omega)
  rw [hsame] at hfollows'
  cases hsearch : (hb.matrix hnames).search fuel (hb.matrix hnames).columns.toFinset with
  | some Y =>
    rw [hsearch] at hfollows hfollows'
    obtain ⟨t, hout, hboard⟩ := hfollows
    obtain ⟨t', hout', hboard'⟩ := hfollows'
    refine ⟨s, s', true, t, t', hs, hs', hout, hout', ?_⟩
    rw [hboard, hboard', hinout, hinout']
  | none =>
    rw [hsearch] at hfollows hfollows'
    exact ⟨s, s', false, s, s', hs, hs', hfollows, hfollows', hinout.trans hinout'.symm⟩

theorem solveSudoku_eq (mem mem' : Nodes) {fuel fuel' : Nat} (hfuel : kMaxNodes < fuel)
    (hfuel' : kMaxNodes < fuel') (puzzle : List UInt8) :
    solveSudoku mem fuel puzzle = solveSudoku mem' fuel' puzzle := by
  unfold solveSudoku
  split
  · split
    · obtain ⟨s, s', found, t, t', hs, hs', hout, hout', hboard⟩ :=
        solve_memory mem mem' (fun i => (digitAt puzzle i).toNat) hfuel hfuel'
      rw [hs, hs']
      simp only [Option.bind_eq_bind, Option.bind_some, hout, hout', hboard]
    · rfl
  · rfl

/-- The answer to a puzzle. -/
def answerOf (puzzle : List UInt8) : List UInt8 :=
  (solveSudoku ⟨fun _ => 0, fun _ => 0, fun _ => 0, fun _ => 0, fun _ => 0, fun _ => 0,
    fun _ => 0⟩ (kMaxNodes + 1) puzzle).getD []

theorem solveSudoku_answerOf (mem : Nodes) {fuel : Nat} (hfuel : kMaxNodes < fuel)
    {puzzle : List UInt8} (hlen : puzzle.length = kCells) :
    solveSudoku mem fuel puzzle = some (answerOf puzzle) ∧ Answers puzzle (answerOf puzzle) := by
  obtain ⟨out, hout, hanswers⟩ := solveSudoku_answers mem hfuel hlen
  have hsame : answerOf puzzle = out := by
    rw [answerOf, solveSudoku_eq _ mem (Nat.lt_succ_self kMaxNodes) hfuel, hout, Option.getD_some]
  rw [hsame]
  exact ⟨hout, hanswers⟩

/-- `SolveSudoku` computes a function of the puzzle: what its solver finds in memory that it
has not written yet makes no difference. -/
theorem solveSudoku_of_puzzle_alone (mem : Nodes) {fuel : Nat} (hfuel : kMaxNodes < fuel)
    {puzzle : List UInt8} (hlen : puzzle.length = kCells) :
    solveSudoku mem fuel puzzle = some (answerOf puzzle) :=
  (solveSudoku_answerOf mem hfuel hlen).1

theorem lastCell_on_two_memories :
    solveSudoku (memoryOf 7) (kMaxNodes + 1) lastCellPuzzle = some (answerOf lastCellPuzzle) ∧
      solveSudoku (memoryOf 8) (kMaxNodes + 2) lastCellPuzzle = some (answerOf lastCellPuzzle) := by
  have hlen : lastCellPuzzle.length = kCells := by decide +kernel
  exact ⟨solveSudoku_of_puzzle_alone _ (by omega) hlen,
    solveSudoku_of_puzzle_alone _ (by omega) hlen⟩

end RyanNetwork.Sudoku

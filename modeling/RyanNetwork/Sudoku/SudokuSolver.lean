import RyanNetwork.Lib.Ring

/-!
# `SudokuSolver`

The dancing links of `sudoku.cc`. A pointer is the place of its node in `nodes_`. The places
that no node has been made at yet hold what the memory held before, a parameter of the
constructor. Loops that follow links get fuel, and an assertion that fails ends the
computation: both show as `none`.
-/
namespace RyanNetwork.Sudoku

open Lib

set_option autoImplicit false

def kCells : Nat := 81

def kMaxNodes : Nat := 1 + 81 * 4 + 9 * 9 * 9 * 4

def kRow : Nat := 100

def kCol : Nat := 200

def kBox : Nat := 300

/-- The fields of `Node`, each as a function of the node's place. -/
structure Nodes where
  left : Nat → Nat
  right : Nat → Nat
  up : Nat → Nat
  down : Nat → Nat
  col : Nat → Nat
  name : Nat → Nat
  size : Nat → Int

namespace Nodes

def setLeft (h : Nodes) (n m : Nat) : Nodes := { h with left := Function.update h.left n m }

def setRight (h : Nodes) (n m : Nat) : Nodes := { h with right := Function.update h.right n m }

def setUp (h : Nodes) (n m : Nat) : Nodes := { h with up := Function.update h.up n m }

def setDown (h : Nodes) (n m : Nat) : Nodes := { h with down := Function.update h.down n m }

def setCol (h : Nodes) (n m : Nat) : Nodes := { h with col := Function.update h.col n m }

def setName (h : Nodes) (n m : Nat) : Nodes := { h with name := Function.update h.name n m }

def addSize (h : Nodes) (n : Nat) (d : Int) : Nodes :=
  { h with size := Function.update h.size n (h.size n + d) }

/-- `memset(n, 0, sizeof(Node))` and the four links of the node to itself. -/
def clear (h : Nodes) (n : Nat) : Nodes :=
  { h with
    left := Function.update h.left n n
    right := Function.update h.right n n
    up := Function.update h.up n n
    down := Function.update h.down n n
    size := Function.update h.size n 0 }

def putLeft (h : Nodes) (old nnew : Nat) : Nodes :=
  let h := h.setLeft nnew (h.left old)
  let h := h.setRight nnew old
  let h := h.setRight (h.left old) nnew
  h.setLeft old nnew

def putUp (h : Nodes) (old nnew : Nat) : Nodes :=
  let h := h.setUp nnew (h.up old)
  let h := h.setDown nnew old
  let h := h.setDown (h.up old) nnew
  let h := h.setUp old nnew
  let h := h.addSize old 1
  h.setCol nnew old

/-- The body of the inner loop of `cover`. -/
def hide (h : Nodes) (j : Nat) : Nodes :=
  let h := h.setUp (h.down j) (h.up j)
  let h := h.setDown (h.up j) (h.down j)
  h.addSize (h.col j) (-1)

/-- The body of the inner loop of `uncover`. -/
def unhide (h : Nodes) (j : Nat) : Nodes :=
  let h := h.addSize (h.col j) 1
  let h := h.setUp (h.down j) j
  h.setDown (h.up j) j

def cover (fuel : Nat) (h : Nodes) (c : Nat) : Option Nodes :=
  let h := h.setLeft (h.right c) (h.left c)
  let h := h.setRight (h.left c) (h.right c)
  around down (fun h row =>
    around right (fun h j => some (h.hide j)) row fuel h (h.right row)) c fuel h (h.down c)

def uncover (fuel : Nat) (h : Nodes) (c : Nat) : Option Nodes :=
  (around up (fun h row =>
    around left (fun h j => some (h.unhide j)) row fuel h (h.left row)) c fuel h (h.up c)).map
  fun h =>
    let h := h.setLeft (h.right c) c
    h.setRight (h.left c) c

/-- The loop of `get_min_column` from `cc` on, with the smallest column so far. -/
def minLoop (h : Nodes) (root : Nat) : Nat → Nat → Int → Nat → Option Nat
  | 0, _, _, _ => none
  | fuel + 1, c, minSize, cc =>
    if cc = root then some c
    else if minSize > h.size cc then
      if h.size cc ≤ 1 then some cc else minLoop h root fuel cc (h.size cc) (h.right cc)
    else minLoop h root fuel c minSize (h.right cc)

def getMinColumn (fuel : Nat) (h : Nodes) (root : Nat) : Option Nat :=
  let c := h.right root
  if h.size c > 1 then h.minLoop root fuel c (h.size c) (h.right c) else some c

/-- The loop of `solve` that reads a cell and its value off the nodes of a row. -/
def readRow (h : Nodes) : Nat → Nat → Option Nat → Option Nat → Option (Nat × Nat)
  | 0, _, _, _ => none
  | fuel + 1, n, cell, val =>
    match cell, val with
    | some cell, some val => some (cell, val)
    | cell, val =>
      if h.name n < 100 then readRow h fuel (h.right n) (some (h.name n)) val
      else readRow h fuel (h.right n) cell (some (h.name n % 10))

end Nodes

structure SudokuSolver where
  root : Nat
  inout : Nat → Nat
  columns : Nat → Option Nat
  stack : List Nat
  nodes : Nodes
  currNode : Nat

def getRowCol (row val : Nat) : Nat := kRow + row * 10 + val

def getColCol (col val : Nat) : Nat := kCol + col * 10 + val

def getBoxCol (box val : Nat) : Nat := kBox + box * 10 + val

/-- `rows`, `cols` and `boxes` of the constructor: the values given in each unit. -/
structure Given where
  rows : Nat → Nat → Bool
  cols : Nat → Nat → Bool
  boxes : Nat → Nat → Bool

/-- `t[a][v] = true`. -/
def mark (t : Nat → Nat → Bool) (a v : Nat) : Nat → Nat → Bool :=
  Function.update t a (Function.update (t a) v true)

def rowOf (i : Nat) : Nat := i / 9

def colOf (i : Nat) : Nat := i % 9

def boxOf (i : Nat) : Nat := rowOf i / 3 * 3 + colOf i / 3

/-- The first loop of the constructor. -/
def given (board : Nat → Nat) : Given :=
  (List.range kCells).foldl (fun g i =>
    ⟨mark g.rows (rowOf i) (board i), mark g.cols (colOf i) (board i),
      mark g.boxes (boxOf i) (board i)⟩)
    ⟨fun _ _ => false, fun _ _ => false, fun _ _ => false⟩

namespace SudokuSolver

def newColumn (s : SudokuSolver) (n : Nat) : Option (Nat × SudokuSolver) :=
  if s.currNode < kMaxNodes then
    let c := s.currNode
    some (c, { s with
      currNode := c + 1
      nodes := (((s.nodes.clear c).setCol c c).setName c n) })
  else none

def appendColumn (s : SudokuSolver) (n : Nat) : Option SudokuSolver :=
  if s.columns n = none then do
    let (c, s) ← s.newColumn n
    some { s with
      nodes := s.nodes.putLeft s.root c
      columns := Function.update s.columns n (some c) }
  else none

def newRow (s : SudokuSolver) (col : Nat) : Option (Nat × SudokuSolver) :=
  match s.columns col with
  | none => none
  | some c =>
    if s.currNode < kMaxNodes then
      let r := s.currNode
      let h := ((s.nodes.clear r).setName r col).setCol r c
      some (r, { s with currNode := r + 1, nodes := h.putUp (h.col r) r })
    else none

/-- The four nodes of one value in one cell. -/
def newOption (s : SudokuSolver) (i v : Nat) : Option SudokuSolver := do
  let (n0, s) ← s.newRow i
  let (nr, s) ← s.newRow (getRowCol (rowOf i) v)
  let (nc, s) ← s.newRow (getColCol (colOf i) v)
  let (nb, s) ← s.newRow (getBoxCol (boxOf i) v)
  let h := s.nodes.putLeft n0 nr
  let h := h.putLeft n0 nc
  some { s with nodes := h.putLeft n0 nb }

/-- The constructor, over memory that holds `mem`. -/
def new (mem : Nodes) (board : Nat → Nat) : Option SudokuSolver := do
  let (root, s) ← newColumn ⟨0, board, fun _ => none, [], mem, 0⟩ 0
  let s := { s with root := root, nodes := (s.nodes.setRight root root).setLeft root root }
  let g := given board
  let s ← (List.range kCells).foldlM
    (fun s i => if board i = 0 then s.appendColumn i else some s) s
  let s ← (List.range 9).foldlM (fun s i => (List.range' 1 9).foldlM (fun s v => do
    let s ← if g.rows i v then some s else s.appendColumn (getRowCol i v)
    let s ← if g.cols i v then some s else s.appendColumn (getColCol i v)
    if g.boxes i v then some s else s.appendColumn (getBoxCol i v)) s) s
  (List.range kCells).foldlM (fun s i =>
    if board i = 0 then
      (List.range' 1 9).foldlM (fun s v =>
        if g.rows (rowOf i) v || g.cols (colOf i) v || g.boxes (boxOf i) v then some s
        else s.newOption i v) s
    else some s) s

/-- The loop of `solve` that writes the rows on the stack into the board. -/
def writeOut (fuel : Nat) (s : SudokuSolver) : Option (Nat → Nat) :=
  s.stack.foldlM (fun board n => do
    let (cell, val) ← s.nodes.readRow fuel n none none
    some (Function.update board cell val)) s.inout

/-- The loop of `solve` over the rows of the covered column, from `row` on. -/
def tryRows (recurse : SudokuSolver → Option (Bool × SudokuSolver)) (fuel col : Nat) :
    Nat → SudokuSolver → Nat → Option (Bool × SudokuSolver)
  | 0, _, _ => none
  | turns + 1, s, row =>
    if row = col then some (false, s)
    else do
      let h ← around Nodes.right (fun h j => h.cover fuel (h.col j)) row fuel s.nodes
        (s.nodes.right row)
      let (found, s) ← recurse { s with stack := s.stack ++ [row], nodes := h }
      if found then some (true, s)
      else do
        let h ← around Nodes.left (fun h j => h.uncover fuel (h.col j)) row fuel s.nodes
          (s.nodes.left row)
        tryRows recurse fuel col turns { s with stack := s.stack.dropLast, nodes := h } (h.down row)

/-- `solve`, with at most `depth` nested calls. -/
def solve (fuel : Nat) : Nat → SudokuSolver → Option (Bool × SudokuSolver)
  | 0, _ => none
  | depth + 1, s =>
    if s.nodes.left s.root = s.root then do
      let board ← s.writeOut fuel
      some (true, { s with inout := board })
    else do
      let col ← s.nodes.getMinColumn fuel s.root
      let h ← s.nodes.cover fuel col
      let (found, s) ← tryRows (solve fuel depth) fuel col fuel { s with nodes := h } (h.down col)
      if found then some (true, s)
      else do
        let h ← s.nodes.uncover fuel col
        some (false, { s with nodes := h })

end SudokuSolver

/-- `kNoSolution`. -/
def kNoSolution : List UInt8 := [78, 111, 83, 111, 108, 117, 116, 105, 111, 110]

/-- `puzzle[i] - '0'`, with `char` signed. -/
def digitAt (puzzle : List UInt8) (i : Nat) : Int := (puzzle.getD i 0).toInt8.toInt - 48

/-- `SolveSudoku`, with the memory that its solver finds. -/
def solveSudoku (mem : Nodes) (fuel : Nat) (puzzle : List UInt8) : Option (List UInt8) :=
  if puzzle.length = kCells then
    if (List.range kCells).all fun i => 0 ≤ digitAt puzzle i && digitAt puzzle i ≤ 9 then do
      let s ← SudokuSolver.new mem fun i => (digitAt puzzle i).toNat
      let (found, s) ← s.solve fuel fuel
      some (if found then (List.range kCells).map fun i => UInt8.ofNat (s.inout i + 48)
        else kNoSolution)
    else some kNoSolution
  else none

end RyanNetwork.Sudoku

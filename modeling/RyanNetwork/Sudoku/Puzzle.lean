import RyanNetwork.Sudoku.Layout
import Mathlib.Data.Finset.Card
import Mathlib.Order.Interval.Finset.Nat

/-!
# Completions of a puzzle are exact covers

A completion fills the board with the digits so that no row, column or box has one of them
twice. Nine cells that have no digit twice have every digit, and nine cells that have every
digit have none twice: this is why a board that already breaks the rules has no exact cover,
and why what the solver writes is a completion.
-/
namespace RyanNetwork.Sudoku

open Lib

set_option autoImplicit false

structure Completes (board f : Nat → Nat) : Prop where
  keeps : ∀ i < kCells, board i ≠ 0 → f i = board i
  digits : ∀ i < kCells, 1 ≤ f i ∧ f i ≤ 9
  distinct : ∀ i < kCells, ∀ j < kCells, i ≠ j →
    rowOf i = rowOf j ∨ colOf i = colOf j ∨ boxOf i = boxOf j → f i ≠ f j

/-! ## The values that are given -/

theorem mark_iff {t : Nat → Nat → Bool} {a v b w : Nat} :
    mark t a v b w = true ↔ t b w = true ∨ a = b ∧ v = w := by
  unfold mark
  by_cases hb : b = a
  · subst hb
    rw [Function.update_self]
    by_cases hw : w = v
    · subst hw
      simp
    · rw [Function.update_of_ne hw]
      simp [Ne.symm hw]
  · rw [Function.update_of_ne hb]
    simp [Ne.symm hb]

theorem given_iff (board : Nat → Nat) (a v : Nat) :
    ((given board).rows a v = true ↔ ∃ i < kCells, rowOf i = a ∧ board i = v) ∧
    ((given board).cols a v = true ↔ ∃ i < kCells, colOf i = a ∧ board i = v) ∧
    ((given board).boxes a v = true ↔ ∃ i < kCells, boxOf i = a ∧ board i = v) := by
  have hfold : ∀ (l : List Nat) (g : Given),
      ((l.foldl (fun g i => ⟨mark g.rows (rowOf i) (board i), mark g.cols (colOf i) (board i),
        mark g.boxes (boxOf i) (board i)⟩) g).rows a v = true ↔
          g.rows a v = true ∨ ∃ i ∈ l, rowOf i = a ∧ board i = v) ∧
      ((l.foldl (fun g i => ⟨mark g.rows (rowOf i) (board i), mark g.cols (colOf i) (board i),
        mark g.boxes (boxOf i) (board i)⟩) g).cols a v = true ↔
          g.cols a v = true ∨ ∃ i ∈ l, colOf i = a ∧ board i = v) ∧
      ((l.foldl (fun g i => ⟨mark g.rows (rowOf i) (board i), mark g.cols (colOf i) (board i),
        mark g.boxes (boxOf i) (board i)⟩) g).boxes a v = true ↔
          g.boxes a v = true ∨ ∃ i ∈ l, boxOf i = a ∧ board i = v) := by
    intro l
    induction l with
    | nil => simp
    | cons i l ih =>
      intro g
      obtain ⟨hr, hc, hb⟩ := ih ⟨mark g.rows (rowOf i) (board i),
        mark g.cols (colOf i) (board i), mark g.boxes (boxOf i) (board i)⟩
      simp only [List.foldl_cons, hr, hc, hb, mark_iff, List.exists_mem_cons_iff, or_assoc, and_self]
  have hall := hfold (List.range kCells) ⟨fun _ _ => false, fun _ _ => false, fun _ _ => false⟩
  simp only [Bool.false_eq_true, false_or, List.mem_range] at hall
  exact hall

/-! ## Rows, columns and boxes alike -/

/-- What rows, columns and boxes have in common: nine units of nine cells, with a constraint
for each unit and value. -/
structure UnitKind (u : Nat → Nat) (con : Nat → Nat → Constraint) : Prop where
  lt : ∀ i < kCells, u i < 9
  card : ∀ a < 9, ((Finset.range kCells).filter (u · = a)).card = 9
  mem : ∀ a v o, con a v ∈ constraintsOf o ↔ u o.1 = a ∧ o.2 = v
  isOpen : ∀ board a v, (con a v).isOpen board = true ↔ ∀ i < kCells, u i = a → board i ≠ v
  inRange : ∀ a v, (con a v).InRange ↔ a < 9 ∧ 1 ≤ v ∧ v ≤ 9

theorem open_of_given {b : Bool} {u board : Nat → Nat} {a v : Nat}
    (h : b = true ↔ ∃ i < kCells, u i = a ∧ board i = v) :
    (!b) = true ↔ ∀ i < kCells, u i = a → board i ≠ v := by
  rw [Bool.not_eq_true', ← Bool.not_eq_true, h]
  constructor
  · intro hno i hi hu hv
    exact hno ⟨i, hi, hu, hv⟩
  · rintro hall ⟨i, hi, hu, hv⟩
    exact hall i hi hu hv

theorem rowKind : UnitKind rowOf .row where
  lt := fun i hi => (units_lt hi).1
  card := by decide +kernel
  mem := by simp [constraintsOf, eq_comm]
  isOpen := fun board a v => open_of_given (given_iff board a v).1
  inRange := fun _ _ => Iff.rfl

theorem colKind : UnitKind colOf .col where
  lt := fun i hi => (units_lt hi).2.1
  card := by decide +kernel
  mem := by simp [constraintsOf, eq_comm]
  isOpen := fun board a v => open_of_given (given_iff board a v).2.1
  inRange := fun _ _ => Iff.rfl

theorem boxKind : UnitKind boxOf .box where
  lt := fun i hi => (units_lt hi).2.2
  card := by decide +kernel
  mem := by simp [constraintsOf, eq_comm]
  isOpen := fun board a v => open_of_given (given_iff board a v).2.2
  inRange := fun _ _ => Iff.rfl

/-- The digits. -/
def digitSet : Finset Nat := Finset.Icc 1 9

theorem digitSet_card : digitSet.card = 9 := rfl

theorem mem_digitSet {v : Nat} : v ∈ digitSet ↔ 1 ≤ v ∧ v ≤ 9 := Finset.mem_Icc

variable {u : Nat → Nat} {con : Nat → Nat → Constraint} {f board : Nat → Nat}

theorem UnitKind.mem_cells {a i : Nat} :
    i ∈ (Finset.range kCells).filter (u · = a) ↔ i < kCells ∧ u i = a := by
  rw [Finset.mem_filter, Finset.mem_range]

/-- A unit with every digit has none twice. -/
theorem UnitKind.injective (hk : UnitKind u con) (hf : ∀ i < kCells, 1 ≤ f i ∧ f i ≤ 9)
    (hsurj : ∀ a < 9, ∀ v ∈ digitSet, ∃ i < kCells, u i = a ∧ f i = v) {i j : Nat}
    (hi : i < kCells) (hj : j < kCells) (hne : i ≠ j) (hu : u i = u j) : f i ≠ f j := by
  intro hfij
  have ha := hk.lt i hi
  have hcard : ((Finset.range kCells).filter (u · = u i)).card ≤ digitSet.card := by
    rw [hk.card _ ha, digitSet_card]
  have hmaps : ∀ k ∈ (Finset.range kCells).filter (u · = u i), f k ∈ digitSet :=
    fun k hk' => mem_digitSet.mpr (hf k (mem_cells.mp hk').1)
  have honto : Set.SurjOn f ((Finset.range kCells).filter (u · = u i)) digitSet := by
    intro v hv
    obtain ⟨k, hk', huk, hfk⟩ := hsurj (u i) ha v hv
    exact ⟨k, mem_cells.mpr ⟨hk', huk⟩, hfk⟩
  have hinj := Finset.injOn_of_surjOn_of_card_le f hmaps honto hcard
  exact hne (hinj (mem_cells.mpr ⟨hi, rfl⟩) (mem_cells.mpr ⟨hj, hu.symm⟩) hfij)

/-- A unit with no digit twice has every digit. -/
theorem UnitKind.surjective (hk : UnitKind u con) (hf : ∀ i < kCells, 1 ≤ f i ∧ f i ≤ 9)
    (hinj : ∀ i < kCells, ∀ j < kCells, i ≠ j → u i = u j → f i ≠ f j) {a v : Nat} (ha : a < 9)
    (hv : v ∈ digitSet) : ∃ i < kCells, u i = a ∧ f i = v := by
  have hcard : digitSet.card ≤ ((Finset.range kCells).filter (u · = a)).card := by
    rw [hk.card _ ha, digitSet_card]
  have hmaps : ∀ k ∈ (Finset.range kCells).filter (u · = a), f k ∈ digitSet :=
    fun k hk' => mem_digitSet.mpr (hf k (mem_cells.mp hk').1)
  have hone : Set.InjOn f ((Finset.range kCells).filter (u · = a)) := by
    intro i hi j hj hfij
    obtain ⟨hi, hui⟩ := mem_cells.mp hi
    obtain ⟨hj, huj⟩ := mem_cells.mp hj
    by_contra hne
    exact hinj i hi j hj hne (hui.trans huj.symm) hfij
  obtain ⟨i, hi, hfi⟩ := Finset.surjOn_of_injOn_of_card_le f hmaps hone hcard hv
  obtain ⟨hi, hui⟩ := mem_cells.mp hi
  exact ⟨i, hi, hui, hfi⟩

/-! ## Completions and exact covers -/

/-- The constraints that an option meets, as a set. -/
def itemsOf (o : Nat × Nat) : Finset Constraint := (constraintsOf o).toFinset

theorem mem_itemsOf {k : Constraint} {o : Nat × Nat} : k ∈ itemsOf o ↔ k ∈ constraintsOf o :=
  List.mem_toFinset

theorem cell_mem {i : Nat} {o : Nat × Nat} : .cell i ∈ constraintsOf o ↔ o.1 = i := by
  simp [constraintsOf, eq_comm]

/-- The board after the values of the options have been written into it. -/
def fill (board : Nat → Nat) (X : List (Nat × Nat)) : Nat → Nat :=
  X.foldl (fun board o => Function.update board o.1 o.2) board

theorem fill_other (board : Nat → Nat) {X : List (Nat × Nat)} {i : Nat} (h : ∀ o ∈ X, o.1 ≠ i) :
    fill board X i = board i := by
  induction X generalizing board with
  | nil => rfl
  | cons o X ih =>
    have hrest := ih (Function.update board o.1 o.2)
      fun o' ho' => h o' (List.mem_cons_of_mem o ho')
    rw [Function.update_of_ne (Ne.symm (h o List.mem_cons_self))] at hrest
    exact hrest

theorem fill_mem {board : Nat → Nat} {X : List (Nat × Nat)} (h : X.Pairwise fun o o' => o.1 ≠ o'.1)
    {o : Nat × Nat} (ho : o ∈ X) : fill board X o.1 = o.2 := by
  induction X generalizing board with
  | nil => cases ho
  | cons o' X ih =>
    obtain ⟨hfirst, hrest⟩ := List.pairwise_cons.mp h
    rcases List.mem_cons.mp ho with rfl | ho
    · have hkept := fill_other (Function.update board o.1 o.2)
        fun o' ho' => Ne.symm (hfirst o' ho')
      rw [Function.update_self] at hkept
      exact hkept
    · exact ih hrest ho

variable {X : List (Nat × Nat)}

theorem cells_pairwise (hX : ExactCover itemsOf (openConstraints board).toFinset X) :
    X.Pairwise fun o o' => o.1 ≠ o'.1 := by
  refine hX.disjoint.imp fun {o o'} hdisj he => ?_
  exact hdisj (.cell o.1) (mem_itemsOf.mpr (cell_mem.mpr rfl))
    (mem_itemsOf.mpr (cell_mem.mpr he.symm))

/-- An open constraint is met by one of the options of a cover. -/
theorem covered_of_open (hX : ExactCover itemsOf (openConstraints board).toFinset X)
    {k : Constraint} (hr : k.InRange) (ho : k.isOpen board = true) :
    ∃ o ∈ X, k ∈ constraintsOf o := by
  have hmem : k ∈ (openConstraints board).toFinset :=
    List.mem_toFinset.mpr (List.mem_filter.mpr ⟨Constraint.mem_all.mpr hr, ho⟩)
  obtain ⟨o, hoX, hk⟩ := (hX.covered k).mp hmem
  exact ⟨o, hoX, mem_itemsOf.mp hk⟩

/-- What an exact cover writes into a board is a completion. -/
theorem completes_of_cover (hdigits : ∀ i < kCells, board i ≤ 9)
    (hsub : ∀ o ∈ X, o ∈ options board)
    (hX : ExactCover itemsOf (openConstraints board).toFinset X) :
    Completes board (fill board X) := by
  have hpair := cells_pairwise hX
  have hkeeps : ∀ i < kCells, board i ≠ 0 → fill board X i = board i := by
    intro i _ hne
    refine fill_other board fun o ho he => ?_
    have hopen := constraintsOf_open (hsub o ho) (k := .cell o.1) (cell_mem.mpr rfl)
    have hzero := (List.mem_filter.mp hopen).2
    simp only [Constraint.isOpen, decide_eq_true_eq, he] at hzero
    exact hne hzero
  have hval : ∀ i < kCells, 1 ≤ fill board X i ∧ fill board X i ≤ 9 := by
    intro i hi
    by_cases hz : board i = 0
    · obtain ⟨o, ho, hcell⟩ := covered_of_open hX (k := .cell i) hi (decide_eq_true hz)
      have hoi := cell_mem.mp hcell
      subst hoi
      rw [fill_mem hpair ho]
      exact (mem_choices.mp (List.mem_of_mem_filter (hsub o ho))).2
    · rw [hkeeps i hi hz]
      have hle := hdigits i hi
      omega
  have honto : ∀ (u : Nat → Nat) (con : Nat → Nat → Constraint), UnitKind u con →
      ∀ a < 9, ∀ v ∈ digitSet, ∃ i < kCells, u i = a ∧ fill board X i = v := by
    intro u con hk a ha v hv
    have hv' := mem_digitSet.mp hv
    by_cases hopen : (con a v).isOpen board = true
    · obtain ⟨o, ho, hmem⟩ := covered_of_open hX ((hk.inRange a v).mpr ⟨ha, hv'⟩) hopen
      obtain ⟨hu, hval'⟩ := (hk.mem a v o).mp hmem
      exact ⟨o.1, (mem_choices.mp (List.mem_of_mem_filter (hsub o ho))).1, hu,
        (fill_mem hpair ho).trans hval'⟩
    · rw [hk.isOpen] at hopen
      push Not at hopen
      obtain ⟨i, hi, hu, hbi⟩ := hopen
      exact ⟨i, hi, hu, (hkeeps i hi (by omega)).trans hbi⟩
  refine ⟨hkeeps, hval, fun i hi j hj hne hshare => ?_⟩
  rcases hshare with hu | hu | hu
  · exact rowKind.injective hval (honto _ _ rowKind) hi hj hne hu
  · exact colKind.injective hval (honto _ _ colKind) hi hj hne hu
  · exact boxKind.injective hval (honto _ _ boxKind) hi hj hne hu

/-- The values that a completion gives to the empty cells. -/
def chosen (board f : Nat → Nat) : List (Nat × Nat) :=
  ((List.range kCells).filter fun i => board i = 0).map fun i => (i, f i)

theorem mem_chosen {o : Nat × Nat} :
    o ∈ chosen board f ↔ o.1 < kCells ∧ board o.1 = 0 ∧ o.2 = f o.1 := by
  simp only [chosen, List.mem_map, List.mem_filter, List.mem_range, decide_eq_true_eq]
  constructor
  · rintro ⟨i, ⟨hi, hz⟩, rfl⟩
    exact ⟨hi, hz, rfl⟩
  · rintro ⟨hi, hz, hv⟩
    exact ⟨o.1, ⟨hi, hz⟩, by rw [← hv]⟩

/-- No given value stands in the way of a completion. -/
theorem Completes.unit_open (hf : Completes board f) (hk : UnitKind u con)
    (hshare : ∀ i j, u i = u j → rowOf i = rowOf j ∨ colOf i = colOf j ∨ boxOf i = boxOf j)
    {i : Nat} (hi : i < kCells) (hz : board i = 0) : (con (u i) (f i)).isOpen board = true := by
  rw [hk.isOpen]
  intro j hj hu hbj
  have hpos := (hf.digits i hi).1
  have hfj := hf.keeps j hj (by omega)
  have hne : i ≠ j := by
    rintro rfl
    omega
  exact hf.distinct i hi j hj hne (hshare i j hu.symm) (hbj.symm.trans hfj.symm)

/-- The values of a completion are options that cover the open constraints exactly. -/
theorem cover_of_completes (hf : Completes board f) :
    (∀ o ∈ chosen board f, o ∈ options board) ∧
      ExactCover itemsOf (openConstraints board).toFinset (chosen board f) := by
  have hoptions : ∀ o ∈ chosen board f, o ∈ options board := by
    intro o ho
    obtain ⟨hi, hz, hv⟩ := mem_chosen.mp ho
    refine List.mem_filter.mpr ⟨mem_choices.mpr ⟨hi, ?_⟩, List.all_eq_true.mpr fun k hk => ?_⟩
    · rw [hv]
      exact hf.digits _ hi
    · simp only [constraintsOf, List.mem_cons, List.not_mem_nil, or_false, hv] at hk
      rcases hk with rfl | rfl | rfl | rfl
      · exact decide_eq_true hz
      · exact hf.unit_open rowKind (fun _ _ h => .inl h) hi hz
      · exact hf.unit_open colKind (fun _ _ h => .inr (.inl h)) hi hz
      · exact hf.unit_open boxKind (fun _ _ h => .inr (.inr h)) hi hz
  refine ⟨hoptions, ?_, ?_⟩
  · have hnodup : ((List.range kCells).filter fun i => board i = 0).Nodup :=
      List.nodup_range.filter _
    refine List.pairwise_map.mpr (hnodup.imp_of_mem fun {i j} hi hj hne k hki hkj => ?_)
    have hi' := List.mem_range.mp (List.mem_of_mem_filter hi)
    have hj' := List.mem_range.mp (List.mem_of_mem_filter hj)
    rw [mem_itemsOf] at hki hkj
    simp only [constraintsOf, List.mem_cons, List.not_mem_nil, or_false] at hki
    rcases hki with rfl | rfl | rfl | rfl
    · exact hne (cell_mem.mp hkj).symm
    · obtain ⟨hu, hv⟩ := (rowKind.mem _ _ _).mp hkj
      exact hf.distinct i hi' j hj' hne (.inl hu.symm) hv.symm
    · obtain ⟨hu, hv⟩ := (colKind.mem _ _ _).mp hkj
      exact hf.distinct i hi' j hj' hne (.inr (.inl hu.symm)) hv.symm
    · obtain ⟨hu, hv⟩ := (boxKind.mem _ _ _).mp hkj
      exact hf.distinct i hi' j hj' hne (.inr (.inr hu.symm)) hv.symm
  · have hunit : ∀ (u : Nat → Nat) (con : Nat → Nat → Constraint), UnitKind u con →
        (∀ i j, u i = u j → rowOf i = rowOf j ∨ colOf i = colOf j ∨ boxOf i = boxOf j) →
        ∀ a v, (con a v).InRange → (con a v).isOpen board = true →
        ∃ o ∈ chosen board f, con a v ∈ itemsOf o := by
      intro u con hk hshare a v hr hopen
      obtain ⟨ha, hv⟩ := (hk.inRange a v).mp hr
      obtain ⟨i, hi, hu, hfi⟩ := hk.surjective hf.digits
        (fun i hi j hj hne h => hf.distinct i hi j hj hne (hshare i j h)) ha
        (mem_digitSet.mpr hv)
      refine ⟨(i, f i), mem_chosen.mpr ⟨hi, ?_, rfl⟩,
        mem_itemsOf.mpr ((hk.mem a v _).mpr ⟨hu, hfi⟩)⟩
      by_contra hz
      exact (hk.isOpen board a v).mp hopen i hi hu ((hf.keeps i hi hz).symm.trans hfi)
    intro k
    rw [List.mem_toFinset]
    constructor
    · intro hk
      obtain ⟨hall, hopen⟩ := List.mem_filter.mp hk
      have hr := Constraint.mem_all.mp hall
      cases k with
      | cell i =>
        refine ⟨(i, f i), mem_chosen.mpr ⟨hr, ?_, rfl⟩, mem_itemsOf.mpr (cell_mem.mpr rfl)⟩
        simpa [Constraint.isOpen] using hopen
      | row r v => exact hunit _ _ rowKind (fun _ _ h => .inl h) r v hr hopen
      | col c v => exact hunit _ _ colKind (fun _ _ h => .inr (.inl h)) c v hr hopen
      | box b v => exact hunit _ _ boxKind (fun _ _ h => .inr (.inr h)) b v hr hopen
    · rintro ⟨o, ho, hk⟩
      exact constraintsOf_open (hoptions o ho) (mem_itemsOf.mp hk)

/-! ## The rows of the matrix and the options -/

variable {names : List Nat} {rows : List (List Nat)} {s : SudokuSolver}

/-- The option whose four nodes make up a row, read off their names. -/
def valueOf (M : Matrix) (r : List Nat) : Nat × Nat :=
  (M.name (r.getD 0 0), M.name (r.getD 1 0) % 10)

/-- A row has four nodes. -/
theorem row_shape {g : Nat → Nat} {r : List Nat} {o : Nat × Nat}
    (hr : r.map g = (constraintsOf o).map Constraint.name) :
    ∃ n₀ n₁ n₂ n₃, r = [n₀, n₁, n₂, n₃] ∧ g n₀ = o.1 ∧ g n₁ = getRowCol (rowOf o.1) o.2 ∧
      g n₂ = getColCol (colOf o.1) o.2 ∧ g n₃ = getBoxCol (boxOf o.1) o.2 := by
  obtain ⟨n₀, r₁, rfl, h₀, hr⟩ := List.map_eq_cons_iff.mp hr
  obtain ⟨n₁, r₂, rfl, h₁, hr⟩ := List.map_eq_cons_iff.mp hr
  obtain ⟨n₂, r₃, rfl, h₂, hr⟩ := List.map_eq_cons_iff.mp hr
  obtain ⟨n₃, r₄, rfl, h₃, hr⟩ := List.map_eq_cons_iff.mp hr
  obtain rfl := List.map_eq_nil_iff.mp hr
  exact ⟨n₀, n₁, n₂, n₃, rfl, h₀, h₁, h₂, h₃⟩

theorem valueOf_eq {M : Matrix} {r : List Nat} {o : Nat × Nat} (ho : o ∈ choices)
    (hr : r.map M.name = (constraintsOf o).map Constraint.name) : valueOf M r = o := by
  obtain ⟨_, hv⟩ := mem_choices.mp ho
  obtain ⟨n₀, n₁, n₂, n₃, rfl, h₀, h₁, _, _⟩ := row_shape hr
  have hmod : M.name n₁ % 10 = o.2 := by
    rw [h₁, getRowCol, kRow]
    omega
  unfold valueOf
  simp only [List.getD_cons_zero, List.getD_cons_succ, h₀, hmod]

/-- The loop that reads a row comes to its cell and its value from any of its nodes. -/
theorem readRow_eq {M : Matrix} {S gone : Finset Nat} {h : Nodes} {r : List Nat} {n fuel : Nat}
    {o : Nat × Nat} (hl : Laid M S gone h) (hr : r ∈ M.rows) (hn : n ∈ r) (ho : o ∈ choices)
    (hnames : r.map M.name = (constraintsOf o).map Constraint.name) (hfuel : 6 ≤ fuel) :
    h.readRow fuel n none none = some o := by
  obtain ⟨fuel, rfl⟩ : ∃ k, fuel = k + 6 := ⟨fuel - 6, by omega⟩
  obtain ⟨hi, hv⟩ := mem_choices.mp ho
  unfold kCells at hi
  obtain ⟨n₀, n₁, n₂, n₃, rfl, h₀, h₁, h₂, h₃⟩ := row_shape hnames
  have hring : h.horizontal.Ring n₀ [n₁, n₂, n₃] := hl.rows [] n₀ [n₁, n₂, n₃] hr
  have hring₁ : h.horizontal.Ring n₀ ([] ++ n₁ :: [n₂, n₃]) := hring
  have hring₂ : h.horizontal.Ring n₀ ([n₁] ++ n₂ :: [n₃]) := hring
  have hring₃ : h.horizontal.Ring n₀ ([n₁, n₂] ++ n₃ :: []) := hring
  have hr₀ : h.right n₀ = n₁ := hring.next_head
  have hr₁ : h.right n₁ = n₂ := hring₁.next_mid
  have hr₂ : h.right n₂ = n₃ := hring₂.next_mid
  have hr₃ : h.right n₃ = n₀ := hring₃.next_mid
  have hname : ∀ m ∈ [n₀, n₁, n₂, n₃], h.name m = M.name m :=
    fun m hm => hl.name m (Matrix.mem_nodes hr hm)
  rw [← hname n₀ (by simp)] at h₀
  rw [← hname n₁ (by simp), getRowCol, kRow] at h₁
  rw [← hname n₂ (by simp), getColCol, kCol] at h₂
  rw [← hname n₃ (by simp), getBoxCol, kBox] at h₃
  have hm₁ : (100 + rowOf o.1 * 10 + o.2) % 10 = o.2 := by omega
  have hm₂ : (200 + colOf o.1 * 10 + o.2) % 10 = o.2 := by omega
  have hm₃ : (300 + boxOf o.1 * 10 + o.2) % 10 = o.2 := by omega
  have hc₀ : o.1 < 100 := by omega
  have hc₁ : ¬100 + rowOf o.1 * 10 + o.2 < 100 := by omega
  have hc₂ : ¬200 + colOf o.1 * 10 + o.2 < 100 := by omega
  have hc₃ : ¬300 + boxOf o.1 * 10 + o.2 < 100 := by omega
  simp only [List.mem_cons, List.not_mem_nil, or_false] at hn
  rcases hn with rfl | rfl | rfl | rfl <;>
    simp only [Nodes.readRow, h₀, h₁, h₂, h₃, hr₀, hr₁, hr₂, hr₃, if_pos hc₀, if_neg hc₁, if_neg hc₂,
      if_neg hc₃, hm₁, hm₂, hm₃]

/-- The header of the column of a constraint. -/
def headerOf (s : SudokuSolver) (k : Constraint) : Nat := (s.columns k.name).getD 0

section Translation

variable (hb : Built ((openConstraints board).map Constraint.name) rows s)
  (hnames : rows.map (·.map s.nodes.name)
    = (options board).map (fun o => (constraintsOf o).map Constraint.name))

include hb in
theorem headerOf_spec {k : Constraint} (hk : k ∈ openConstraints board) :
    s.columns k.name = some (headerOf s k) := by
  obtain ⟨j, hj⟩ := List.mem_iff_getElem?.mp (List.mem_map_of_mem (f := Constraint.name) hk)
  have hcol := (hb.columns k.name (j + 1)).mpr ⟨j, hj, rfl⟩
  unfold headerOf
  rw [hcol]
  rfl

include hb in
theorem headerOf_injective : ∀ k ∈ (openConstraints board).toFinset,
    ∀ k' ∈ (openConstraints board).toFinset, headerOf s k = headerOf s k' → k = k' := by
  intro k hk k' hk' he
  rw [List.mem_toFinset] at hk hk'
  have hname := hb.column_injective (headerOf_spec hb hk) (he ▸ headerOf_spec hb hk')
  exact List.inj_on_of_nodup_map (open_names_nodup board) hk hk' hname

theorem columns_eq_image : (hb.matrix hnames).columns.toFinset
    = (openConstraints board).toFinset.image (headerOf s) := by
  ext c
  rw [List.mem_toFinset, Finset.mem_image]
  constructor
  · intro hc
    have hc' : c ∈ List.range' 1 ((openConstraints board).map Constraint.name).length := hc
    rw [List.mem_range'_1, List.length_map] at hc'
    obtain ⟨k, hk⟩ : ∃ k, (openConstraints board)[c - 1]? = some k :=
      ⟨_, List.getElem?_eq_getElem (by omega)⟩
    have hmem := List.mem_of_getElem? hk
    have hcol : s.columns k.name = some c :=
      (hb.columns _ _).mpr ⟨c - 1, by rw [List.getElem?_map, hk]; rfl, by omega⟩
    refine ⟨k, List.mem_toFinset.mpr hmem, ?_⟩
    exact Option.some.inj ((headerOf_spec hb hmem).symm.trans hcol)
  · rintro ⟨k, hk, rfl⟩
    exact hb.column_mem (headerOf_spec hb (List.mem_toFinset.mp hk))

theorem row_option {r : List Nat} (hr : r ∈ rows) :
    valueOf (hb.matrix hnames) r ∈ options board ∧
      r.map s.nodes.name
        = (constraintsOf (valueOf (hb.matrix hnames) r)).map Constraint.name := by
  obtain ⟨o, ho, he⟩ := row_names hnames hr
  have hval : valueOf (hb.matrix hnames) r = o := valueOf_eq (List.mem_of_mem_filter ho) he
  rw [hval]
  exact ⟨ho, he⟩

theorem items_eq_image {r : List Nat} (hr : r ∈ rows) : (hb.matrix hnames).items r
    = (itemsOf (valueOf (hb.matrix hnames) r)).image (headerOf s) := by
  obtain ⟨_, he⟩ := row_option hb hnames hr
  have hcols : r.map s.nodes.col
      = (constraintsOf (valueOf (hb.matrix hnames) r)).map (headerOf s) := by
    have hheader : (constraintsOf (valueOf (hb.matrix hnames) r)).map (headerOf s)
        = ((constraintsOf (valueOf (hb.matrix hnames) r)).map Constraint.name).map
          fun n => (s.columns n).getD 0 := by
      rw [List.map_map]
      rfl
    rw [hheader, ← he, List.map_map]
    refine List.map_congr_left fun n hn => ?_
    have htag := hb.tagged n (List.mem_flatten.mpr ⟨r, hr, hn⟩)
    simp only [Function.comp_apply, htag, Option.getD_some]
  change (r.map s.nodes.col).toFinset = _
  rw [hcols, itemsOf]
  ext c
  simp

/-- Rows cover all columns exactly if their options cover the open constraints exactly. -/
theorem cover_iff {Y : List (List Nat)} (hY : ∀ r ∈ Y, r ∈ rows) :
    ExactCover (hb.matrix hnames).items (hb.matrix hnames).columns.toFinset Y ↔
      ExactCover itemsOf (openConstraints board).toFinset
        (Y.map (valueOf (hb.matrix hnames))) := by
  rw [columns_eq_image]
  refine ExactCover.image_iff (headerOf_injective hb)
    (fun r hr => items_eq_image hb hnames (hY r hr)) fun r hr k hk => ?_
  exact List.mem_toFinset.mpr
    (constraintsOf_open (row_option hb hnames (hY r hr)).1 (mem_itemsOf.mp hk))

/-- Every option has its row. -/
theorem exists_rows {X : List (Nat × Nat)} (hX : ∀ o ∈ X, o ∈ options board) :
    ∃ Y : List (List Nat), (∀ r ∈ Y, r ∈ rows) ∧ Y.map (valueOf (hb.matrix hnames)) = X := by
  induction X with
  | nil => exact ⟨[], by simp, rfl⟩
  | cons o X ih =>
    obtain ⟨Y, hY, he⟩ := ih fun o' ho' => hX o' (List.mem_cons_of_mem o ho')
    have ho := hX o List.mem_cons_self
    have hmem : (constraintsOf o).map Constraint.name ∈ rows.map (·.map s.nodes.name) := by
      rw [hnames]
      exact List.mem_map_of_mem (f := fun o => (constraintsOf o).map Constraint.name) ho
    obtain ⟨r, hr, hro⟩ := List.mem_map.mp hmem
    refine ⟨r :: Y, ?_, ?_⟩
    · intro r' hr'
      rcases List.mem_cons.mp hr' with rfl | hr'
      · exact hr
      · exact hY r' hr'
    · have hval : valueOf (hb.matrix hnames) r = o := valueOf_eq (List.mem_of_mem_filter ho) hro
      rw [List.map_cons, he, hval]

/-- The columns can be covered exactly if the board can be completed. -/
theorem coverable_iff (hdigits : ∀ i < kCells, board i ≤ 9) :
    (hb.matrix hnames).Coverable (hb.matrix hnames).columns.toFinset ↔
      ∃ f, Completes board f := by
  constructor
  · rintro ⟨Y, hY, hcover⟩
    refine ⟨_, completes_of_cover hdigits ?_ ((cover_iff hb hnames hY).mp hcover)⟩
    intro o ho
    obtain ⟨r, hr, rfl⟩ := List.mem_map.mp ho
    exact (row_option hb hnames (hY r hr)).1
  · rintro ⟨f, hf⟩
    obtain ⟨hsub, hcover⟩ := cover_of_completes hf
    obtain ⟨Y, hY, he⟩ := exists_rows hb hnames hsub
    exact ⟨Y, hY, (cover_iff hb hnames hY).mpr (he ▸ hcover)⟩

end Translation

/-! ## The solver -/

theorem writeRows_eq_fill (M : Matrix) (board : Nat → Nat) (Y : List (List Nat)) :
    writeRows (valueOf M) board Y = fill board (Y.map (valueOf M)) := by
  unfold writeRows fill
  rw [List.foldl_map]

/-- `kMaxNodes` bounds every loop. -/
theorem matrix_size_lt (hb : Built ((openConstraints board).map Constraint.name) rows s)
    (hnames : rows.map (·.map s.nodes.name)
      = (options board).map (fun o => (constraintsOf o).map Constraint.name))
    (hcurr : s.currNode ≤ kMaxNodes) : (hb.matrix hnames).size < kMaxNodes := by
  have hnodes := hb.curr
  have hlen : (hb.matrix hnames).size
      = ((openConstraints board).map Constraint.name).length + rows.flatten.length := by
    unfold Matrix.size
    rw [List.length_append]
    exact congrArg (· + rows.flatten.length) List.length_range'
  omega

theorem columns_card_lt (hb : Built ((openConstraints board).map Constraint.name) rows s)
    (hnames : rows.map (·.map s.nodes.name)
      = (options board).map (fun o => (constraintsOf o).map Constraint.name))
    (hcurr : s.currNode ≤ kMaxNodes) :
    (hb.matrix hnames).columns.toFinset.card < kMaxNodes := by
  have hle := List.toFinset_card_le (hb.matrix hnames).columns
  have hsum : (hb.matrix hnames).size
      = (hb.matrix hnames).columns.length + (hb.matrix hnames).rows.flatten.length :=
    List.length_append
  have hsize := matrix_size_lt hb hnames hcurr
  omega

/-- On the matrix of any board: whatever columns are covered, uncovering them in the opposite
order restores every link and every size. -/
theorem covers_undone (mem : Nodes) (board : Nat → Nat) {fuel : Nat} (hfuel : kMaxNodes < fuel) :
    ∃ s, SudokuSolver.new mem board = some s ∧
      ∀ cs : List Nat, cs.Nodup → (∀ c ∈ cs, ∃ n, s.columns n = some c) →
        ∃ h, cs.foldlM (fun h c => h.cover fuel c) s.nodes = some h ∧
          cs.reverse.foldlM (fun h c => h.uncover fuel c) h = some s.nodes := by
  obtain ⟨s, rows, hs, hb, hnames, hcurr, _⟩ := new_built mem board
  refine ⟨s, hs, fun cs hnodup hcs => ?_⟩
  have hsub : ∀ c ∈ cs, c ∈ (hb.matrix hnames).columns.toFinset := by
    intro c hc
    obtain ⟨n, hn⟩ := hcs c hc
    exact List.mem_toFinset.mpr (hb.column_mem hn)
  have hsize := Nat.lt_trans (matrix_size_lt hb hnames hcurr) hfuel
  obtain ⟨h, hgo, hback, _⟩ := Holds.covers hsize cs _ _ (hb.holds hnames) hnodup hsub
  exact ⟨h, hgo, hback⟩

/-- Memory with a number in it. -/
def memoryOf (n : Nat) : Nodes :=
  ⟨fun _ => n, fun _ => n, fun _ => n, fun _ => n, fun _ => n, fun _ => n, fun _ => n⟩

/-- A board that keeps the rules. -/
def shifted (i : Nat) : Nat := (rowOf i * 3 + rowOf i / 3 + colOf i) % 9 + 1

/-- The same board without its last cell. -/
def shiftedButLast (i : Nat) : Nat := if i = 80 then 0 else shifted i

theorem covers_undone_last_cell : ∃ s h, SudokuSolver.new (memoryOf 7) shiftedButLast = some s ∧
    [1, 2, 3].foldlM (fun h c => h.cover (kMaxNodes + 1) c) s.nodes = some h ∧
    [3, 2, 1].foldlM (fun h c => h.uncover (kMaxNodes + 1) c) h = some s.nodes := by
  obtain ⟨s, hs, hcovers⟩ := covers_undone (memoryOf 7) shiftedButLast (Nat.lt_succ_self kMaxNodes)
  have hcolumns : (SudokuSolver.new (memoryOf 7) shiftedButLast).map
      (fun s => (s.columns 80, s.columns 188, s.columns 288)) = some (some 1, some 2, some 3) := by
    decide +kernel
  rw [hs, Option.map_some, Option.some.injEq, Prod.mk.injEq, Prod.mk.injEq] at hcolumns
  obtain ⟨h, hgo, hback⟩ := hcovers [1, 2, 3] (by decide) (by
    intro c hc
    simp only [List.mem_cons, List.not_mem_nil, or_false] at hc
    rcases hc with rfl | rfl | rfl
    · exact ⟨80, hcolumns.1⟩
    · exact ⟨188, hcolumns.2.1⟩
    · exact ⟨288, hcolumns.2.2⟩)
  exact ⟨s, h, hs, hgo, hback⟩

/-- `solve` on links that hold the matrix of a board follows the search on that matrix. -/
theorem solve_follows_board (hb : Built ((openConstraints board).map Constraint.name) rows s)
    (hnames : rows.map (·.map s.nodes.name)
      = (options board).map (fun o => (constraintsOf o).map Constraint.name))
    (hcurr : s.currNode ≤ kMaxNodes) {fuel : Nat} (hfuel : kMaxNodes < fuel) {t : SudokuSolver}
    (hroot : t.root = 0) (hstack : t.stack = [])
    (hh : Holds (hb.matrix hnames) (hb.matrix hnames).columns.toFinset t.nodes) :
    Follows (valueOf (hb.matrix hnames)) [] t (t.solve fuel fuel)
      ((hb.matrix hnames).search fuel (hb.matrix hnames).columns.toFinset) := by
  have hsize := Nat.lt_trans (matrix_size_lt hb hnames hcurr) hfuel
  have hread : ∀ h, Holds (hb.matrix hnames) ∅ h → ∀ r ∈ (hb.matrix hnames).rows, ∀ n ∈ r,
      h.readRow fuel n none none = some (valueOf (hb.matrix hnames) r) := by
    intro h hh r hr n hn
    obtain ⟨ho, he⟩ := row_option hb hnames hr
    exact readRow_eq hh.toLaid hr hn (List.mem_of_mem_filter ho) he
      (by unfold kMaxNodes at hfuel; omega)
  exact solve_follows hsize hread fuel (hb.matrix hnames).columns.toFinset t []
    (Nat.lt_trans (columns_card_lt hb hnames hcurr) hfuel) hroot hh (hstack ▸ .nil)

/-- On every board of digits the constructor and `solve` return; `solve` returns `true` with a
completion in the board, or `false` when there is none. -/
theorem solve_completes (mem : Nodes) {fuel : Nat} (hfuel : kMaxNodes < fuel)
    (hdigits : ∀ i < kCells, board i ≤ 9) :
    ∃ s, SudokuSolver.new mem board = some s ∧
      ((∃ s', s.solve fuel fuel = some (true, s') ∧ Completes board s'.inout) ∨
        (s.solve fuel fuel = some (false, s) ∧ ¬∃ f, Completes board f)) := by
  obtain ⟨s, rows, hs, hb, hnames, hcurr, hinout, hstack⟩ := new_built mem board
  refine ⟨s, hs, ?_⟩
  have hbranch := (hb.matrix hnames).branching
  have hfollows := solve_follows_board hb hnames hcurr hfuel hb.root hstack (hb.holds hnames)
  have hcard := Nat.lt_trans (columns_card_lt hb hnames hcurr) hfuel
  cases hsearch : (hb.matrix hnames).search fuel (hb.matrix hnames).columns.toFinset with
  | some Y =>
    rw [hsearch] at hfollows
    obtain ⟨s', hout, hboard⟩ := hfollows
    obtain ⟨hY, hcover⟩ := ExactCover.of_search hbranch fuel _ Y (Finset.Subset.refl _) hsearch
    refine .inl ⟨s', hout, ?_⟩
    rw [hboard, hinout, List.nil_append, writeRows_eq_fill]
    refine completes_of_cover hdigits ?_ ((cover_iff hb hnames hY).mp hcover)
    intro o ho
    obtain ⟨r, hr, rfl⟩ := List.mem_map.mp ho
    exact (row_option hb hnames (hY r hr)).1
  | none =>
    rw [hsearch] at hfollows
    refine .inr ⟨hfollows, ?_⟩
    intro hex
    obtain ⟨Y, hY, hcover⟩ := (coverable_iff hb hnames hdigits).mpr hex
    exact ExactCover.search_ne_none hbranch fuel _ Y (Finset.Subset.refl _) hcard hY hcover hsearch

/-- The digits of a string of cells. -/
def cellsOf (puzzle : List UInt8) (i : Nat) : Nat := (digitAt puzzle i).toNat

def AllDigits (puzzle : List UInt8) : Prop :=
  ∀ i < kCells, 0 ≤ digitAt puzzle i ∧ digitAt puzzle i ≤ 9

/-- The string is a completion of the puzzle. -/
structure Solves (puzzle out : List UInt8) : Prop where
  length : out.length = kCells
  digits : AllDigits out
  completes : Completes (cellsOf puzzle) (cellsOf out)

theorem digitAt_written {g : Nat → Nat} {i : Nat} (hi : i < kCells) (hg : g i ≤ 9) :
    digitAt ((List.range kCells).map fun i => UInt8.ofNat (g i + 48)) i = g i := by
  have hdigit : ∀ d : Nat, d ≤ 9 → (UInt8.ofNat (d + 48)).toInt8.toInt - 48 = (d : Int) := by decide
  have hget : ((List.range kCells).map fun i => UInt8.ofNat (g i + 48)).getD i 0
      = UInt8.ofNat (g i + 48) := by
    rw [List.getD_eq_getElem?_getD, List.getElem?_map, List.getElem?_range hi]
    rfl
  unfold digitAt
  rw [hget]
  exact hdigit (g i) hg

theorem solves_written {puzzle : List UInt8} {g : Nat → Nat}
    (hg : Completes (cellsOf puzzle) g) :
    Solves puzzle ((List.range kCells).map fun i => UInt8.ofNat (g i + 48)) := by
  have hdigit : ∀ i < kCells,
      digitAt ((List.range kCells).map fun i => UInt8.ofNat (g i + 48)) i = g i :=
    fun i hi => digitAt_written hi (hg.digits i hi).2
  have hcell : ∀ i < kCells,
      cellsOf ((List.range kCells).map fun i => UInt8.ofNat (g i + 48)) i = g i := by
    intro i hi
    unfold cellsOf
    rw [hdigit i hi, Int.toNat_natCast]
  refine ⟨by rw [List.length_map, List.length_range], ?_, ?_, ?_, ?_⟩
  · intro i hi
    have hle := (hg.digits i hi).2
    rw [hdigit i hi]
    omega
  · intro i hi hne
    rw [hcell i hi]
    exact hg.keeps i hi hne
  · intro i hi
    rw [hcell i hi]
    exact hg.digits i hi
  · intro i hi j hj hne hshare
    rw [hcell i hi, hcell j hj]
    exact hg.distinct i hi j hj hne hshare

/-- What the answer to a puzzle has to be: a completion if the string is a puzzle that has
one, `kNoSolution` otherwise. -/
def Answers (puzzle out : List UInt8) : Prop :=
  ((AllDigits puzzle ∧ ∃ f, Completes (cellsOf puzzle) f) → Solves puzzle out) ∧
    (¬(AllDigits puzzle ∧ ∃ f, Completes (cellsOf puzzle) f) → out = kNoSolution)

theorem allDigits_iff (puzzle : List UInt8) : ((List.range kCells).all fun i =>
    decide (0 ≤ digitAt puzzle i) && decide (digitAt puzzle i ≤ 9)) = true ↔ AllDigits puzzle := by
  simp only [List.all_eq_true, List.mem_range, Bool.and_eq_true, decide_eq_true_eq]
  exact Iff.rfl

theorem solveSudoku_answers (mem : Nodes) {fuel : Nat} (hfuel : kMaxNodes < fuel)
    {puzzle : List UInt8} (hlen : puzzle.length = kCells) :
    ∃ out, solveSudoku mem fuel puzzle = some out ∧ Answers puzzle out := by
  unfold Answers solveSudoku
  rw [if_pos hlen]
  by_cases hd : AllDigits puzzle
  · rw [if_pos ((allDigits_iff puzzle).mpr hd)]
    have hdigits : ∀ i < kCells, cellsOf puzzle i ≤ 9 := by
      intro i hi
      have hle := (hd i hi).2
      unfold cellsOf
      omega
    obtain ⟨s, hs, hsolve⟩ := solve_completes mem hfuel hdigits
    have hnew : SudokuSolver.new mem (fun i => (digitAt puzzle i).toNat) = some s := hs
    rcases hsolve with ⟨s', hout, hcompletes⟩ | ⟨hout, hnone⟩
    · refine ⟨(List.range kCells).map fun i => UInt8.ofNat (s'.inout i + 48), ?_, ?_, ?_⟩
      · simp only [hnew, hout, Option.bind_eq_bind, Option.bind_some, if_true]
      · exact fun _ => solves_written hcompletes
      · exact fun hno => absurd ⟨hd, _, hcompletes⟩ hno
    · refine ⟨kNoSolution, ?_, ?_, ?_⟩
      · simp only [hnew, hout, Option.bind_eq_bind, Option.bind_some, Bool.false_eq_true, if_false]
      · exact fun hex => absurd hex.2 hnone
      · exact fun _ => rfl
  · rw [if_neg (fun h => hd ((allDigits_iff puzzle).mp h))]
    exact ⟨kNoSolution, rfl, fun h => absurd h.1 hd, fun _ => rfl⟩

/-- `SolveSudoku` returns for every string of 81 bytes and whatever the memory held: a
completion if the string is a puzzle that has one, `kNoSolution` otherwise. -/
theorem solveSudoku_correct (mem : Nodes) {fuel : Nat} (hfuel : kMaxNodes < fuel)
    {puzzle : List UInt8} (hlen : puzzle.length = kCells) :
    ∃ out, solveSudoku mem fuel puzzle = some out ∧
      ((AllDigits puzzle ∧ ∃ f, Completes (cellsOf puzzle) f) → Solves puzzle out) ∧
      (¬(AllDigits puzzle ∧ ∃ f, Completes (cellsOf puzzle) f) → out = kNoSolution) :=
  solveSudoku_answers mem hfuel hlen

/-- A puzzle with one cell left. -/
def lastCellPuzzle : List UInt8 :=
  (List.range kCells).map fun i => UInt8.ofNat (shiftedButLast i + 48)

theorem solveSudoku_last_cell : ∃ out,
    solveSudoku (memoryOf 7) (kMaxNodes + 1) lastCellPuzzle = some out ∧
      Solves lastCellPuzzle out := by
  have hlen : lastCellPuzzle.length = kCells := by decide +kernel
  obtain ⟨out, hout, hsolves, _⟩ :=
    solveSudoku_correct (memoryOf 7) (Nat.lt_succ_self kMaxNodes) hlen
  have hdigits : AllDigits lastCellPuzzle := by
    unfold AllDigits
    decide +kernel
  have hcompletes : Completes (cellsOf lastCellPuzzle) shifted :=
    ⟨by decide +kernel, by decide +kernel, by decide +kernel⟩
  exact ⟨out, hout, hsolves ⟨hdigits, shifted, hcompletes⟩⟩

end RyanNetwork.Sudoku

import RyanNetwork.MemoryPool.Allocations

/-!
# The blocks that `malloc` no longer tries

`malloc` starts its search at `current_`. When no block has room, the scan of
`MallocSmallNode` counts a failure for every block from `current_` to the one before the
last and moves `current_` behind the last of them that had failed five times before. It
looks at each block by itself: a block that `FreeMemory` has emptied, and whose counter is
zero again, is passed over for the sake of a later one.
-/
namespace RyanNetwork.MemoryPool.Skipping

open Lib SmallNode

set_option autoImplicit false

/-- `current_` is a node of the chain, the chain ends without meeting a node twice, and
every block before `current_` has failed more than five times. -/
structure ChainSound (p : Pool) : Prop where
  currentInChain : p.current < p.small.length
  acyclic : (p.small.map SmallNode.addr).Nodup
  nullTerminated : 0 ∉ p.small.map SmallNode.addr
  skipped : ∀ b ∈ p.small.take p.current, 5 < b.failed

/-- The size that a call of `malloc` looks for in the pages: the one asked for, or that of
a record for a large region. -/
def cutSize (p : Pool) (size : Nat) (answers : Answers) : Option Nat :=
  if size = 0 then none
  else if PAGE_SIZE - sizeofSmallNode < size then
    match answers.large with
    | none => none
    | some a => if (Pool.reuse size a 0 p.largeList).isSome then none else some sizeofLargeNode
  else some size

/-- Whether `malloc` makes a new block: no page has room, and one is granted. -/
def makesBlock (p : Pool) (size : Nat) (answers : Answers) : Bool :=
  match cutSize p size answers with
  | none => false
  | some n => (Pool.mallocFit n (p.small.drop p.current)).isNone && answers.page.isSome

/-- The blocks that the scan counts a failure for. -/
def scanned (p : Pool) : List SmallNode := (p.small.drop p.current).dropLast

/-- Among the scanned blocks, those that have failed five times come first, and no counter
is about to wrap around. -/
def InOrder (p : Pool) : Prop :=
  (scanned p).Pairwise (fun b c => 5 ≤ c.failed → 5 ≤ b.failed) ∧
    ∀ b ∈ scanned p, 5 ≤ b.failed → b.failed + 1 < 2 ^ 32

instance (p : Pool) : Decidable (InOrder p) := inferInstanceAs (Decidable (_ ∧ _))

/-- A call that makes a new block finds the counters in order. -/
def ScansInOrder (u : Use) : PoolCall → Prop
  | .malloc size answers => makesBlock u.pool size answers = true → InOrder u.pool
  | .calloc size answers => makesBlock u.pool size answers = true → InOrder u.pool
  | .freeMemory _ => True
  | .resetPool => True

instance (u : Use) : DecidablePred (ScansInOrder u)
  | .malloc size answers =>
    inferInstanceAs (Decidable (makesBlock u.pool size answers = true → InOrder u.pool))
  | .calloc size answers =>
    inferInstanceAs (Decidable (makesBlock u.pool size answers = true → InOrder u.pool))
  | .freeMemory _ => isTrue trivial
  | .resetPool => isTrue trivial

/-! ## The scan -/

/-- A block with one more failure. -/
def countFailure (b : SmallNode) : SmallNode := { b with failed := (b.failed + 1) % 2 ^ 32 }

/-- Where the scan leaves `current_`. -/
def advance (pos current : Nat) : List SmallNode → Nat
  | [] => current
  | b :: rest => advance (pos + 1) (if 5 ≤ b.failed then pos + 1 else current) rest

/-- The scan of blocks up to the last one, which it does not count. -/
theorem countFailures_eq (pos current : Nat) (s : List SmallNode) (z : SmallNode) :
    Pool.countFailures pos current (s ++ [z]) =
      (s.map countFailure ++ [z], advance pos current s) := by
  induction s generalizing pos current with
  | nil => rfl
  | cons b s ih =>
    have hi := ih (pos + 1) (if 5 ≤ b.failed then pos + 1 else current)
    cases s with
    | nil => rfl
    | cons c s =>
      simp only [List.cons_append, Pool.countFailures] at hi ⊢
      rw [hi]
      rfl

/-- `current_` stays, or goes behind the last block that had failed five times. -/
theorem advance_cases (pos current : Nat) (s : List SmallNode) :
    (advance pos current s = current ∧ ∀ b ∈ s, ¬5 ≤ b.failed) ∨
      ∃ pre c post, s = pre ++ c :: post ∧ 5 ≤ c.failed ∧ (∀ b ∈ post, ¬5 ≤ b.failed) ∧
        advance pos current s = pos + pre.length + 1 := by
  induction s generalizing pos current with
  | nil => exact Or.inl ⟨rfl, by simp⟩
  | cons b s ih =>
    rcases ih (pos + 1) (if 5 ≤ b.failed then pos + 1 else current) with
      ⟨hstay, hnone⟩ | ⟨pre, c, post, rfl, hc, hpost, hmove⟩
    · by_cases hb : 5 ≤ b.failed
      · refine Or.inr ⟨[], b, s, rfl, hb, hnone, ?_⟩
        rw [if_pos hb] at hstay
        rw [advance, if_pos hb, hstay]
        rfl
      · refine Or.inl ⟨?_, ?_⟩
        · rw [if_neg hb] at hstay
          rw [advance, if_neg hb, hstay]
        · intro d hd
          rcases List.mem_cons.mp hd with rfl | hd
          · exact hb
          · exact hnone d hd
    · refine Or.inr ⟨b :: pre, c, post, rfl, hc, hpost, ?_⟩
      rw [advance, hmove, List.length_cons]
      omega

/-- Blocks that have failed five times and are counted once more. -/
theorem failed_more_iff {b : SmallNode} (hlt : b.failed < 2 ^ 32) :
    5 < (countFailure b).failed ↔ 5 ≤ b.failed ∧ b.failed + 1 < 2 ^ 32 := by
  change 5 < (b.failed + 1) % 2 ^ 32 ↔ _
  omega

/-- Behind the last block that has failed five times, the counters are in order. -/
theorem inOrder_split {pre post : List SmallNode} {c : SmallNode} (hc : 5 ≤ c.failed)
    (hpost : ∀ b ∈ post, ¬5 ≤ b.failed) :
    (∀ b ∈ pre ++ [c], 5 ≤ b.failed ∧ b.failed + 1 < 2 ^ 32) ↔
      (pre ++ c :: post).Pairwise (fun b d => 5 ≤ d.failed → 5 ≤ b.failed) ∧
        ∀ b ∈ pre ++ c :: post, 5 ≤ b.failed → b.failed + 1 < 2 ^ 32 := by
  have hsame : pre ++ c :: post = (pre ++ [c]) ++ post := by simp
  rw [hsame, List.pairwise_append,
    List.forall_mem_append (p := fun b : SmallNode => 5 ≤ b.failed → b.failed + 1 < 2 ^ 32)]
  constructor
  · intro h
    refine ⟨⟨?_, ?_, fun b _ d hd hfive => absurd hfive (hpost d hd)⟩, fun b hb _ => (h b hb).2,
      fun b hb hfive => absurd hfive (hpost b hb)⟩
    · exact List.pairwise_of_forall_mem_list fun b hb _ _ _ => (h b hb).1
    · exact List.pairwise_of_forall_mem_list fun _ _ d hd hfive => absurd hfive (hpost d hd)
  · rintro ⟨⟨hpair, -, -⟩, hwrap, -⟩ b hb
    have hfive : 5 ≤ b.failed := by
      rcases List.mem_append.mp hb with hpre | hone
      · exact (List.pairwise_append.mp hpair).2.2 b hpre c List.mem_cons_self hc
      · rw [List.mem_singleton.mp hone]
        exact hc
    exact ⟨hfive, hwrap b hb hfive⟩

/-- The blocks that the scan passes over have failed more than five times exactly if the
counters were in order. -/
theorem passed_iff {s : List SmallNode} (hlt : ∀ b ∈ s, b.failed < 2 ^ 32)
    (taken rest : List SmallNode) :
    (∀ b ∈ (taken ++ (s.map countFailure ++ rest)).take (advance taken.length taken.length s),
        5 < b.failed) ↔
      (∀ b ∈ taken, 5 < b.failed) ∧
        s.Pairwise (fun b c => 5 ≤ c.failed → 5 ≤ b.failed) ∧
        ∀ b ∈ s, 5 ≤ b.failed → b.failed + 1 < 2 ^ 32 := by
  rcases advance_cases taken.length taken.length s with
    ⟨hstay, hnone⟩ | ⟨pre, c, post, rfl, hc, hpost, hmove⟩
  · rw [hstay, List.take_left]
    refine ⟨fun h => ⟨h, ?_, fun b hb hfive => absurd hfive (hnone b hb)⟩, And.left⟩
    exact List.pairwise_of_forall_mem_list fun b _ d hd hfive => absurd hfive (hnone d hd)
  · have hsplit : taken ++ ((pre ++ c :: post).map countFailure ++ rest) =
        (taken ++ (pre ++ [c]).map countFailure) ++ (post.map countFailure ++ rest) := by simp
    have hlen : (taken ++ (pre ++ [c]).map countFailure).length =
        taken.length + pre.length + 1 := by
      simp
      omega
    have hmore (b : SmallNode) (hb : b ∈ pre ++ [c]) :
        5 < (countFailure b).failed ↔ 5 ≤ b.failed ∧ b.failed + 1 < 2 ^ 32 := by
      refine failed_more_iff (hlt b ?_)
      rw [List.mem_append, List.mem_singleton] at hb
      rw [List.mem_append, List.mem_cons]
      rcases hb with hb | hb
      · exact Or.inl hb
      · exact Or.inr (Or.inl hb)
    rw [hmove, hsplit, List.take_left' hlen, List.forall_mem_append, List.forall_mem_map,
      ← inOrder_split hc hpost]
    exact and_congr_right fun _ => forall₂_congr hmore

/-! ## What each operation does to the counters -/

/-- The counters along the chain, with `current_`. -/
structure SameCounters (p p' : Pool) : Prop where
  current : p'.current = p.current
  failed : p'.small.map SmallNode.failed = p.small.map SmallNode.failed

/-- A new block was appended after a scan. -/
def AddsBlock (p p' : Pool) : Prop :=
  ∃ node : SmallNode, node.failed = 0 ∧
    p'.small = p.small.take p.current ++
      (Pool.countFailures p.current p.current (p.small.drop p.current)).1 ++ [node] ∧
    p'.current = (Pool.countFailures p.current p.current (p.small.drop p.current)).2

theorem mallocFit_failed {size addr : Nat} {l l' : List SmallNode}
    (h : Pool.mallocFit size l = some (addr, l')) :
    l'.map SmallNode.failed = l.map SmallNode.failed := by
  obtain ⟨pre, b, post, rfl, -, -, rfl⟩ := mallocFit_cases h
  simp

theorem mallocSmall_effect (p : Pool) (size : Nat) (page : Option Nat) :
    if (Pool.mallocFit size (p.small.drop p.current)).isNone && page.isSome then
      AddsBlock p (p.mallocSmall size page).2
    else SameCounters p (p.mallocSmall size page).2 := by
  unfold Pool.mallocSmall
  cases hfit : Pool.mallocFit size (p.small.drop p.current) with
  | some r =>
    obtain ⟨addr, nodes⟩ := r
    refine ⟨rfl, ?_⟩
    change (p.small.take p.current ++ nodes).map SmallNode.failed = _
    rw [List.map_append, mallocFit_failed hfit, ← List.map_append, List.take_append_drop]
  | none =>
    cases page with
    | none => exact ⟨rfl, rfl⟩
    | some block => exact ⟨_, rfl, rfl, rfl⟩

theorem malloc_effect (p : Pool) (size : Nat) (answers : Answers) :
    if makesBlock p size answers then AddsBlock p (p.malloc size answers).2
    else SameCounters p (p.malloc size answers).2 := by
  unfold makesBlock cutSize Pool.malloc
  by_cases hz : size = 0
  · simp only [hz, ↓reduceIte]
    exact ⟨rfl, rfl⟩
  · rw [if_neg hz, if_neg hz]
    by_cases hlarge : PAGE_SIZE - sizeofSmallNode < size
    · rw [if_pos hlarge, if_pos hlarge]
      unfold Pool.mallocLargeNode posixMemalign
      cases ha : answers.large with
      | none => exact ⟨rfl, rfl⟩
      | some a =>
        simp only [Option.map_some]
        cases hreuse : Pool.reuse size a 0 p.largeList with
        | some largeList => exact ⟨rfl, rfl⟩
        | none =>
          have heffect := mallocSmall_effect { p with heap := ⟨a, size⟩ :: p.heap }
            sizeofLargeNode answers.page
          simp only [Option.isSome_none, Bool.false_eq_true, ↓reduceIte]
          split at heffect
          · rename_i hmakes
            rw [if_pos hmakes]
            split
            · exact heffect
            · exact heffect
          · rename_i hmakes
            rw [if_neg hmakes]
            split
            · exact ⟨heffect.current, heffect.failed⟩
            · exact ⟨heffect.current, heffect.failed⟩
    · rw [if_neg hlarge, if_neg hlarge]
      exact mallocSmall_effect p size answers.page

/-- The node that the search finds is released, and whether its page is empty now. -/
theorem releaseSmall_cases {p : Pool} {q : Nat} {l l' : List SmallNode} {empty : Bool}
    (h : p.releaseSmall q l = some (l', empty)) :
    ∃ pre b post, l = pre ++ b :: post ∧ l' = pre ++ p.released b :: post ∧
      empty = decide ((b.quote + 2 ^ 32 - 1) % 2 ^ 32 = 0) := by
  induction l generalizing l' with
  | nil => cases h
  | cons b l ih =>
    by_cases hb : b.addr ≤ q ∧ q ≤ b.end_
    · refine ⟨[], b, l, rfl, ?_⟩
      rw [Pool.releaseSmall, if_pos hb] at h
      unfold Pool.released
      by_cases hz : (b.quote + 2 ^ 32 - 1) % 2 ^ 32 = 0
      · simp only [if_pos hz] at h
        rw [if_pos hz, decide_eq_true hz]
        obtain ⟨h1, h2⟩ := Prod.mk.inj (Option.some.inj h)
        exact ⟨h1.symm, h2.symm⟩
      · simp only [if_neg hz] at h
        rw [if_neg hz, decide_eq_false hz]
        obtain ⟨h1, h2⟩ := Prod.mk.inj (Option.some.inj h)
        exact ⟨h1.symm, h2.symm⟩
    · rw [Pool.releaseSmall, if_neg hb] at h
      obtain ⟨⟨m, e⟩, hm, he⟩ := Option.map_eq_some_iff.mp h
      obtain ⟨rfl, rfl⟩ := Prod.mk.inj he
      obtain ⟨pre, c, post, rfl, rfl, hempty⟩ := ih hm
      exact ⟨b :: pre, c, post, rfl, rfl, hempty⟩

/-- A node of a released page keeps its counter unless the page is empty now. -/
theorem releaseSmall_failed {p : Pool} {q : Nat} {l l' : List SmallNode} {empty : Bool}
    (h : p.releaseSmall q l = some (l', empty)) :
    (empty = false → l'.map SmallNode.failed = l.map SmallNode.failed) ∧
      ∀ f ∈ l'.map SmallNode.failed, f = 0 ∨ f ∈ l.map SmallNode.failed := by
  obtain ⟨pre, b, post, rfl, rfl, hempty⟩ := releaseSmall_cases h
  rw [hempty, List.map_append, List.map_cons, List.map_append, List.map_cons]
  unfold Pool.released
  by_cases hz : (b.quote + 2 ^ 32 - 1) % 2 ^ 32 = 0
  · rw [if_pos hz, decide_eq_true hz]
    refine ⟨fun he => absurd he (by decide), fun f hf => ?_⟩
    rw [List.mem_append, List.mem_cons] at hf ⊢
    rcases hf with hf | hf | hf
    · exact Or.inr (Or.inl hf)
    · exact Or.inl hf
    · exact Or.inr (Or.inr (Or.inr hf))
  · rw [if_neg hz]
    exact ⟨fun _ => rfl, fun f hf => Or.inr hf⟩

/-- `FreeMemory` rewinds `current_`, or leaves it and all counters. -/
theorem freeMemory_effect (p : Pool) (q : Nat) :
    ((p.freeMemory q).current = 0 ∨ SameCounters p (p.freeMemory q)) ∧
      ∀ f ∈ (p.freeMemory q).small.map SmallNode.failed,
        f = 0 ∨ f ∈ p.small.map SmallNode.failed := by
  unfold Pool.freeMemory
  cases Pool.clearLarge q p.largeList with
  | some largeList => exact ⟨Or.inr ⟨rfl, rfl⟩, fun f hf => Or.inr hf⟩
  | none =>
    cases hr : p.releaseSmall q p.small with
    | none => exact ⟨Or.inr ⟨rfl, rfl⟩, fun f hf => Or.inr hf⟩
    | some r =>
      obtain ⟨l, empty⟩ := r
      obtain ⟨hsame, hfrom⟩ := releaseSmall_failed hr
      refine ⟨?_, hfrom⟩
      cases empty with
      | true => exact Or.inl rfl
      | false => exact Or.inr ⟨rfl, hsame rfl⟩

/-! ## Every sequence of operations -/

/-- The counters are 32 bits wide, and `current_` is right. -/
structure Kept (u : Use) : Prop where
  held : Held u
  counted : ∀ f ∈ u.pool.small.map SmallNode.failed, f < 2 ^ 32
  chain : ChainSound u.pool

/-- The nodes of a chain stand at different addresses, none of them null. -/
theorem nodes_distinct {small : List SmallNode} {items : List Extent} (h : Carved small items) :
    (small.map SmallNode.addr).Nodup ∧ 0 ∉ small.map SmallNode.addr := by
  constructor
  · refine List.pairwise_map.mpr (h.apart.imp_of_mem fun {b c} hb hc hd => ?_)
    obtain ⟨hbend, -, -, hbaddr⟩ := region_spec (h.nodes b hb)
    obtain ⟨hcend, -, -, hcaddr⟩ := region_spec (h.nodes c hc)
    have happart := ends_apart (h.nodes b hb) (h.nodes c hc) hd
    unfold sizeofPool at hbaddr hcaddr
    unfold PAGE_SIZE at hbend hcend happart
    omega
  · intro hz
    obtain ⟨b, hb, haddr⟩ := List.mem_map.mp hz
    obtain ⟨-, -, hpos, hb'⟩ := region_spec (h.nodes b hb)
    omega

/-- What is left to show of a chain that belongs to a held pool. -/
theorem chainSound_iff {u : Use} (h : Held u) (hcur : u.pool.current < u.pool.small.length) :
    ChainSound u.pool ↔ ∀ b ∈ u.pool.small.take u.pool.current, 5 < b.failed := by
  obtain ⟨small, large, -, hl⟩ := h
  obtain ⟨hnodup, hnull⟩ := nodes_distinct hl.pages.carved
  exact ⟨ChainSound.skipped, fun hs => ⟨hcur, hnodup, hnull, hs⟩⟩

/-- A held pool has a first page. -/
theorem held_nonempty {u : Use} (h : Held u) : 0 < u.pool.small.length := by
  obtain ⟨small, large, -, hl⟩ := h
  obtain ⟨b, rest, hs, -⟩ := head_region hl.pages
  rw [hs]
  exact Nat.succ_pos _

theorem SameCounters.length {p p' : Pool} (h : SameCounters p p') :
    p'.small.length = p.small.length := by
  rw [← List.length_map SmallNode.failed, h.failed, List.length_map]

theorem SameCounters.skipped {p p' : Pool} (h : SameCounters p p')
    (hp : ∀ b ∈ p.small.take p.current, 5 < b.failed) :
    ∀ b ∈ p'.small.take p'.current, 5 < b.failed := by
  rw [← List.forall_mem_map (f := SmallNode.failed) (P := fun f => 5 < f)] at hp ⊢
  rw [List.map_take, h.failed, h.current, ← List.map_take]
  exact hp

/-- With the counters as they were, a pool is kept. -/
theorem kept_of_same {u v : Use} (hu : Kept u) (hv : Held v) (h : SameCounters u.pool v.pool) :
    Kept v := by
  have hcur : v.pool.current < v.pool.small.length := by
    rw [h.length, h.current]
    exact hu.chain.currentInChain
  refine ⟨hv, ?_, (chainSound_iff hv hcur).mpr (h.skipped hu.chain.skipped)⟩
  rw [h.failed]
  exact hu.counted

/-- With `current_` at the first node, nothing is skipped. -/
theorem kept_of_rewound {v : Use} (hv : Held v) (hzero : v.pool.current = 0)
    (hcount : ∀ f ∈ v.pool.small.map SmallNode.failed, f < 2 ^ 32) : Kept v := by
  have hcur : v.pool.current < v.pool.small.length := by
    rw [hzero]
    exact held_nonempty hv
  refine ⟨hv, hcount, (chainSound_iff hv hcur).mpr ?_⟩
  rw [hzero]
  simp

theorem advance_le (current : Nat) (s : List SmallNode) :
    advance current current s ≤ current + s.length := by
  rcases advance_cases current current s with ⟨hstay, -⟩ | ⟨pre, c, post, rfl, -, -, hmove⟩
  · omega
  · rw [hmove, List.length_append, List.length_cons]
    omega

/-- Where the new block goes: `z` was the last one. -/
theorem addsBlock_cases {p p' : Pool} (hcur : p.current < p.small.length) (h : AddsBlock p p') :
    ∃ z node : SmallNode, node.failed = 0 ∧
      p.small = p.small.take p.current ++ (scanned p ++ [z]) ∧
      p'.small = p.small.take p.current ++ ((scanned p).map countFailure ++ [z, node]) ∧
      p'.current = advance p.current p.current (scanned p) := by
  obtain ⟨node, hnode, hsmall, hcurrent⟩ := h
  have hne : p.small.drop p.current ≠ [] := by
    rw [ne_eq, List.drop_eq_nil_iff]
    omega
  have hdrop : p.small.drop p.current =
      scanned p ++ [(p.small.drop p.current).getLast hne] :=
    (List.dropLast_append_getLast hne).symm
  generalize (p.small.drop p.current).getLast hne = z at hdrop
  rw [hdrop, countFailures_eq] at hsmall hcurrent
  refine ⟨z, node, hnode, ?_, ?_, hcurrent⟩
  · rw [← hdrop, List.take_append_drop]
  · rw [hsmall, List.append_assoc, List.append_assoc]
    rfl

/-- After a scan and a new block, the skipped blocks have failed more than five times
exactly if the counters were in order. -/
theorem addsBlock_spec {u v : Use} (hu : Kept u) (hv : Held v) (h : AddsBlock u.pool v.pool) :
    (InOrder u.pool → Kept v) ∧ (¬InOrder u.pool → ¬ChainSound v.pool) := by
  have hcur := hu.chain.currentInChain
  obtain ⟨z, node, hnode, hwhole, hsmall, hcurrent⟩ := addsBlock_cases hcur h
  have htaken : (u.pool.small.take u.pool.current).length = u.pool.current := by
    rw [List.length_take]
    omega
  have hcounted := hu.counted
  rw [List.forall_mem_map, hwhole, List.forall_mem_append, List.forall_mem_append] at hcounted
  obtain ⟨hbefore, hscanned, hz⟩ := hcounted
  have hin : v.pool.current < v.pool.small.length := by
    have hle := advance_le u.pool.current (scanned u.pool)
    rw [hsmall, hcurrent]
    simp only [List.length_append, List.length_map, List.length_cons, List.length_nil]
    omega
  have hpassed := passed_iff hscanned (u.pool.small.take u.pool.current) [z, node]
  rw [htaken, ← hcurrent, ← hsmall, ← chainSound_iff hv hin] at hpassed
  constructor
  · intro horder
    refine ⟨hv, ?_, hpassed.mpr ⟨hu.chain.skipped, horder⟩⟩
    rw [List.forall_mem_map, hsmall, List.forall_mem_append, List.forall_mem_append,
      List.forall_mem_map]
    refine ⟨hbefore, fun _ _ => Nat.mod_lt _ (Nat.two_pow_pos 32), ?_⟩
    intro b hb
    rw [List.mem_cons, List.mem_singleton] at hb
    rcases hb with rfl | rfl
    · exact hz b List.mem_cons_self
    · rw [hnode]
      exact Nat.two_pow_pos 32
  · intro hno hchain
    exact hno (hpassed.mp hchain).2

/-- A call of `malloc` keeps `current_` right exactly if a scan finds the counters in
order. -/
theorem malloc_kept {u v : Use} {size : Nat} {answers : Answers} (hu : Kept u) (hv : Held v)
    (hpool : v.pool = (u.pool.malloc size answers).2) :
    ((makesBlock u.pool size answers = true → InOrder u.pool) → Kept v) ∧
      (¬(makesBlock u.pool size answers = true → InOrder u.pool) → ¬ChainSound v.pool) := by
  have heffect := malloc_effect u.pool size answers
  rw [← hpool] at heffect
  split at heffect
  · rename_i hmakes
    obtain ⟨hgood, hbad⟩ := addsBlock_spec hu hv heffect
    exact ⟨fun h => hgood (h hmakes), fun h => hbad fun ho => h fun _ => ho⟩
  · rename_i hmakes
    exact ⟨fun _ => kept_of_same hu hv heffect, fun h => absurd (fun hm => absurd hm hmakes) h⟩

theorem freeMemory_kept {u v : Use} {q : Nat} (hu : Kept u) (hv : Held v)
    (hpool : v.pool = u.pool.freeMemory q) : Kept v := by
  obtain ⟨hcases, hfrom⟩ := freeMemory_effect u.pool q
  rw [← hpool] at hcases hfrom
  rcases hcases with hzero | hsame
  · refine kept_of_rewound hv hzero fun f hf => ?_
    rcases hfrom f hf with rfl | hf
    · decide
    · exact hu.counted f hf
  · exact kept_of_same hu hv hsame

theorem resetPool_kept {v : Use} {p : Pool} (hv : Held v) (hpool : v.pool = p.resetPool) :
    Kept v := by
  refine kept_of_rewound hv (by rw [hpool]; rfl) ?_
  rw [hpool, List.forall_mem_map]
  intro b hb
  obtain ⟨c, -, rfl⟩ := List.mem_map.mp hb
  exact Nat.two_pow_pos 32

theorem step_kept {u v : Use} {c : PoolCall} (hu : Kept u) (h : Use.Step u c v) :
    (ScansInOrder u c → Kept v) ∧ (¬ScansInOrder u c → ¬ChainSound v.pool) := by
  have hv := step_held hu.held h
  obtain ⟨-, rfl⟩ := h
  cases c with
  | malloc size answers => exact malloc_kept hu hv rfl
  | calloc size answers => exact malloc_kept hu hv rfl
  | freeMemory q => exact ⟨fun _ => freeMemory_kept hu hv rfl, fun h => absurd trivial h⟩
  | resetPool => exact ⟨fun _ => resetPool_kept hv rfl, fun h => absurd trivial h⟩

theorem create_kept {page : Nat} (halign : page % MP_ALIGNMENT = 0) (hpos : 0 < page) :
    Kept (Use.create page) :=
  kept_of_rewound (create_held halign hpos) rfl (by
    intro f hf
    rw [List.mem_singleton.mp hf]
    exact Nat.two_pow_pos 32)

/-- In a run of operations after `CreatePool`, every state has its `current_` in an acyclic
chain with only blocks before it that failed more than five times, if and only if every call
that makes a new block finds the counters in order. -/
theorem chain_sound_iff {page : Nat} (halign : page % MP_ALIGNMENT = 0) (hpos : 0 < page)
    {calls : List PoolCall} {u : Use} (hr : Run Use.Step (Use.create page) calls u) :
    (∀ pre post v, calls = pre ++ post → Run Use.Step (Use.create page) pre v →
        ChainSound v.pool) ↔
      ∀ pre c post v, calls = pre ++ c :: post → Run Use.Step (Use.create page) pre v →
        ScansInOrder v c := by
  have hstart := create_kept halign hpos
  rw [← Run.steps_iff (I := Kept) (C := ScansInOrder) (Q := fun _ _ w => ChainSound w.pool)
    (fun _ _ _ _ h h' => h.2.trans h'.2.symm)
    (fun _ _ _ hs h hc => ⟨(step_kept hs h).1 hc, ((step_kept hs h).1 hc).chain⟩)
    (fun _ _ _ hs h hc => (step_kept hs h).2 hc) hr hstart]
  constructor
  · intro h pre c post v w hcalls hv hw
    exact h (pre ++ [c]) post w (by rw [hcalls, List.append_assoc]; rfl) (hv.snoc hw)
  · intro h pre post w hcalls hw
    rcases List.eq_nil_or_concat' pre with rfl | ⟨pre, c, rfl⟩
    · cases hw
      exact hstart.chain
    · obtain ⟨v, hv, hlast⟩ := hw.split
      cases hlast with
      | cons hstep hnil =>
        cases hnil
        exact h pre c post v w (by rw [hcalls, List.append_assoc]; rfl) hv hstep

/-- One small allocation, and seven that fill a page each. -/
def eightPages : List PoolCall :=
  .malloc 16 ⟨none, none⟩ ::
    (List.range 7).map fun n => .malloc 4064 ⟨none, some (8192 * (n + 1))⟩

/-- The first page has failed six times and is skipped. -/
theorem first_page_skipped :
    ∃ u, Run Use.Step (Use.create 4096) eightPages u ∧ u.pool.current = 1 ∧
      u.pool.small.map SmallNode.failed = [6, 5, 4, 3, 2, 1, 0, 0] ∧ ChainSound u.pool := by
  have hcheck : (Run.exec (fun v c => v.Allowed c ∧ ScansInOrder v c)
      (fun v c => (.ok (v.after c) : Except Unit Use)) (Use.create 4096) eightPages).map
        (fun u => (u.pool.current, u.pool.small.map SmallNode.failed)) =
      some (1, [6, 5, 4, 3, 2, 1, 0, 0]) := by
    decide +kernel
  obtain ⟨u, hu, hd⟩ := Option.map_eq_some_iff.mp hcheck
  obtain ⟨hcurrent, hfailed⟩ := Prod.mk.inj hd
  have hguarded : Run (fun v c w => Use.Step v c w ∧ ScansInOrder v c) (Use.create 4096)
      eightPages u :=
    (Run.of_exec hu).mono fun _ _ _ h => ⟨⟨h.1.1, (Except.ok.inj h.2).symm⟩, h.1.2⟩
  have hr := hguarded.mono (S := Use.Step) fun _ _ _ h => h.1
  refine ⟨u, hr, hcurrent, hfailed, ?_⟩
  refine (chain_sound_iff (by decide) (by decide) hr).mpr ?_ eightPages [] u (by simp) hr
  exact hguarded.guarded fun _ _ _ _ h h' => h.2.trans h'.2.symm

/-- The first page is emptied, and the next allocation skips it for the sake of the second
one: `malloc` finds no room for 16 bytes while the whole page is free. -/
theorem emptied_page_skipped :
    ∃ u, Run Use.Step (Use.create 4096)
        (eightPages ++ [.freeMemory 4160, .malloc 4064 ⟨none, some 65536⟩]) u ∧
      u.pool.current = 2 ∧
      (u.pool.small.take u.pool.current).map (fun b => (b.quote, b.failed)) = [(0, 1), (1, 6)] ∧
      (u.pool.malloc 16 ⟨none, none⟩).1 = 0 ∧ ¬ChainSound u.pool := by
  have hcheck : ((Use.create 4096).perform
      (eightPages ++ [.freeMemory 4160, .malloc 4064 ⟨none, some 65536⟩])).map (fun u =>
        decide (u.pool.current = 2 ∧
          (u.pool.small.take u.pool.current).map (fun b => (b.quote, b.failed)) =
            [(0, 1), (1, 6)] ∧
          (u.pool.malloc 16 ⟨none, none⟩).1 = 0 ∧
          ¬∀ b ∈ u.pool.small.take u.pool.current, 5 < b.failed)) = some true := by
    decide +kernel
  obtain ⟨u, hu, hd⟩ := Option.map_eq_some_iff.mp hcheck
  obtain ⟨hcurrent, hblocks, hfail, hno⟩ := of_decide_eq_true hd
  exact ⟨u, Use.run_of_perform hu, hcurrent, hblocks, hfail, fun h => hno h.skipped⟩

end RyanNetwork.MemoryPool.Skipping

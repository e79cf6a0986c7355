import RyanNetwork.Lib.Outcome
import RyanNetwork.MemoryPool.Allocations

/-!
# Pools on memory that is not zero-filled

`CreatePool` writes neither `quote_` nor `next_` of the first node, and `MallocSmallNode`
increments `quote_` of a new node and leaves its `failed_` as they are. Here a page is granted
with arbitrary bytes. `small` are the nodes that the pool has made, in the order of `next_`, and
`tail` is the `next_` of the last of them: a null pointer, or what the memory held. Following
such a pointer is a fault. On zero-filled pages this is the pool of `Model`.
-/
namespace RyanNetwork.MemoryPool

open Lib

set_option autoImplicit false

/-- The bytes of memory when a region is granted. -/
abbrev Content := Nat → UInt8

/-- The unsigned integer in `n` bytes from `a` on. -/
def load (c : Content) (a : Nat) : Nat → Nat
  | 0 => 0
  | n + 1 => (c a).toNat + 256 * load c (a + 1) n

theorem load_lt (c : Content) (a n : Nat) : load c a n < 256 ^ n := by
  induction n generalizing a with
  | zero => exact Nat.one_pos
  | succ n ih =>
    have hbyte := (c a).toNat_lt
    have hrest := ih (a + 1)
    rw [load, pow_succ]
    omega

/-- The fields of a `SmallNode` that are not written before they are read. -/
structure Stale where
  quote : Nat
  failed : Nat
  next : Nat

/-- The fields as the memory holds them for a node at `node`. -/
def stale (c : Content) (node : Nat) : Stale :=
  ⟨load c (node + 16) 4, load c (node + 20) 4, load c (node + 24) 8⟩

inductive WildPointer where
  | wildPointer
  deriving DecidableEq, Repr

structure Raw where
  pool : Pool
  tail : Nat
  deriving DecidableEq, Repr

namespace Raw

def createPool (page : Nat) (c : Content) : Raw where
  pool := { Pool.createPool page with
    small := [⟨page + sizeofPool, page + PAGE_SIZE, page + sizeofPool + sizeofSmallNode,
      (stale c (page + sizeofPool)).quote, 0⟩] }
  tail := (stale c (page + sizeofPool)).next

def mallocSmallNode (r : Raw) (size : Nat) (page : Option Nat) (c : Content) : Nat × Raw :=
  match posixMemalign r.pool.heap page PAGE_SIZE with
  | none => (0, r)
  | some (block, heap) =>
    let addr := mpAlignPtr (block + sizeofSmallNode) MP_ALIGNMENT
    let node : SmallNode := ⟨block, block + PAGE_SIZE, addr + size,
      ((stale c block).quote + 1) % 2 ^ 32, (stale c block).failed⟩
    let walked := Pool.countFailures r.pool.current r.pool.current
      (r.pool.small.drop r.pool.current)
    (addr, ⟨{ r.pool with
      heap := heap
      small := r.pool.small.take r.pool.current ++ walked.1 ++ [node]
      current := walked.2 }, 0⟩)

/-- `malloc` of a size that is not 0 and not large; its loop goes on to the end of the list. -/
def mallocSmall (r : Raw) (size : Nat) (page : Option Nat) (c : Content) :
    Except WildPointer (Nat × Raw) :=
  match Pool.mallocFit size (r.pool.small.drop r.pool.current) with
  | some (addr, nodes) =>
    .ok (addr, { r with pool := { r.pool with small := r.pool.small.take r.pool.current ++ nodes } })
  | none => if r.tail = 0 then .ok (r.mallocSmallNode size page c) else .error .wildPointer

def mallocLargeNode (r : Raw) (size : Nat) (answers : Answers) (c : Content) :
    Except WildPointer (Nat × Raw) :=
  match posixMemalign r.pool.heap answers.large size with
  | none => .ok (0, r)
  | some (addr, heap) =>
    match Pool.reuse size addr 0 r.pool.largeList with
    | some largeList =>
      .ok (addr, { r with pool := { r.pool with heap := heap, largeList := largeList } })
    | none => do
      let (record, s) ← mallocSmall { r with pool := { r.pool with heap := heap } } sizeofLargeNode
        answers.page c
      if record = 0 then
        return (0, { s with pool := { s.pool with heap := free s.pool.heap addr } })
      else
        return (addr, { s with pool := { s.pool with
          largeList := ⟨record, addr, size % 2 ^ 32⟩ :: s.pool.largeList } })

def malloc (r : Raw) (size : Nat) (answers : Answers) (c : Content) :
    Except WildPointer (Nat × Raw) :=
  if size = 0 then .ok (0, r)
  else if PAGE_SIZE - sizeofSmallNode < size then r.mallocLargeNode size answers c
  else r.mallocSmall size answers.page c

def freeMemory (r : Raw) (q : Nat) : Except WildPointer Raw :=
  match Pool.clearLarge q r.pool.largeList with
  | some largeList =>
    .ok { r with pool := { r.pool with heap := free r.pool.heap q, largeList := largeList } }
  | none =>
    match r.pool.releaseSmall q r.pool.small with
    | some (small, empty) =>
      .ok { r with pool := { r.pool with
        small := small, current := if empty then 0 else r.pool.current } }
    | none => if r.tail = 0 then .ok r else .error .wildPointer

/-- `ResetPool`, whose loop goes on to the end of the list. -/
def resetPool (r : Raw) : Except WildPointer Raw :=
  if r.tail = 0 then .ok { r with pool := r.pool.resetPool } else .error .wildPointer

/-- An operation, with the bytes that a page holds if it is granted one; the address that it
returns is 0 if it returns none. -/
def perform (r : Raw) (call : PoolCall) (c : Content) : Except WildPointer (Nat × Raw) :=
  match call with
  | .malloc size answers => r.malloc size answers c
  | .calloc size answers => r.malloc size answers c
  | .freeMemory q => (r.freeMemory q).map fun s => (0, s)
  | .resetPool => r.resetPool.map fun s => (0, s)

/-- A sequence of operations, with the addresses that they return. -/
def run (r : Raw) : List (PoolCall × Content) → Except WildPointer (List Nat × Raw)
  | [] => .ok ([], r)
  | (call, c) :: rest => do
    let (addr, s) ← r.perform call c
    let (addrs, t) ← s.run rest
    return (addr :: addrs, t)

/-- The small blocks from `head_` to the null pointer, if the list ends with one. -/
def chain (r : Raw) : Option (List SmallNode) := if r.tail = 0 then some r.pool.small else none

end Raw

/-! ## Zero-filled pages -/

def zeroed : Content := fun _ => 0

theorem load_zeroed (a n : Nat) : load zeroed a n = 0 := by
  induction n generalizing a with
  | zero => rfl
  | succ n ih =>
    rw [load, ih]
    rfl

theorem stale_zeroed (node : Nat) : stale zeroed node = ⟨0, 0, 0⟩ := by
  simp only [stale, load_zeroed]

theorem createPool_zeroed (page : Nat) :
    Raw.createPool page zeroed = ⟨Pool.createPool page, 0⟩ := by
  simp only [Raw.createPool, stale_zeroed]
  rfl

theorem mallocSmall_zeroed (p : Pool) (size : Nat) (page : Option Nat) :
    Raw.mallocSmall ⟨p, 0⟩ size page zeroed =
      .ok ((p.mallocSmall size page).1, ⟨(p.mallocSmall size page).2, 0⟩) := by
  unfold Raw.mallocSmall Pool.mallocSmall
  cases hfit : Pool.mallocFit size (p.small.drop p.current) with
  | some s => rfl
  | none =>
    simp only [↓reduceIte, Raw.mallocSmallNode, Pool.mallocSmallNode, stale_zeroed]
    cases page with
    | none => rfl
    | some block => rfl

theorem mallocLargeNode_zeroed (p : Pool) (size : Nat) (answers : Answers) :
    Raw.mallocLargeNode ⟨p, 0⟩ size answers zeroed =
      .ok ((p.mallocLargeNode size answers).1, ⟨(p.mallocLargeNode size answers).2, 0⟩) := by
  unfold Raw.mallocLargeNode Pool.mallocLargeNode
  dsimp only
  cases posixMemalign p.heap answers.large size with
  | none => rfl
  | some a =>
    dsimp only
    cases Pool.reuse size a.1 0 p.largeList with
    | some largeList => rfl
    | none =>
      dsimp only
      rw [mallocSmall_zeroed]
      simp only [bind, Except.bind, pure, Except.pure]
      split <;> rfl

/-- On zero-filled pages every operation is that of `Pool`. -/
theorem perform_zeroed (u : Use) (call : PoolCall) :
    ∃ addr, Raw.perform ⟨u.pool, 0⟩ call zeroed = .ok (addr, ⟨(u.after call).pool, 0⟩) := by
  have hmalloc (size : Nat) (answers : Answers) : Raw.malloc ⟨u.pool, 0⟩ size answers zeroed =
      .ok ((u.pool.malloc size answers).1, ⟨(u.pool.malloc size answers).2, 0⟩) := by
    unfold Raw.malloc Pool.malloc
    split
    · rfl
    · split
      · exact mallocLargeNode_zeroed u.pool size answers
      · exact mallocSmall_zeroed u.pool size answers.page
  cases call with
  | malloc size answers => exact ⟨_, hmalloc size answers⟩
  | calloc size answers => exact ⟨_, hmalloc size answers⟩
  | freeMemory q =>
    refine ⟨0, ?_⟩
    simp only [Raw.perform, Raw.freeMemory, Use.after, Pool.freeMemory]
    cases Pool.clearLarge q u.pool.largeList with
    | some largeList => rfl
    | none =>
      cases u.pool.releaseSmall q u.pool.small with
      | some s => rfl
      | none => rfl
  | resetPool => exact ⟨0, rfl⟩

theorem run_cons {r s : Raw} {call : PoolCall} {c : Content} {addr : Nat}
    (h : r.perform call c = .ok (addr, s)) (calls : List (PoolCall × Content)) :
    r.run ((call, c) :: calls) = (s.run calls).map fun x => (addr :: x.1, x.2) := by
  rw [Raw.run, h]
  simp only [bind, Except.bind, pure, Except.pure]
  cases s.run calls with
  | error e => rfl
  | ok x => rfl

/-- What a run that starts with a call that returns can end in. -/
theorem run_cons_ok_iff {r s t : Raw} {call : PoolCall} {c : Content} {addr : Nat}
    (h : r.perform call c = .ok (addr, s)) (calls : List (PoolCall × Content)) (addrs : List Nat) :
    r.run ((call, c) :: calls) = .ok (addrs, t) ↔
      ∃ rest, addrs = addr :: rest ∧ s.run calls = .ok (rest, t) := by
  rw [run_cons h]
  constructor
  · intro hrun
    obtain ⟨x, hs, hx⟩ := ok_of_map hrun
    obtain ⟨rfl, rfl⟩ := Prod.mk.inj hx
    exact ⟨x.1, rfl, hs⟩
  · rintro ⟨rest, rfl, hs⟩
    rw [hs]
    rfl

/-- On zero-filled pages every run is one of `Pool`. -/
theorem run_zeroed {page : Nat} {calls : List PoolCall} {u : Use}
    (h : Run Use.Step (Use.create page) calls u) :
    ∃ addrs, (Raw.createPool page zeroed).run (calls.map fun call => (call, zeroed)) =
      .ok (addrs, ⟨u.pool, 0⟩) := by
  have hfrom {u v : Use} {calls : List PoolCall} (h : Run Use.Step u calls v) :
      ∃ addrs, Raw.run ⟨u.pool, 0⟩ (calls.map fun call => (call, zeroed)) =
        .ok (addrs, ⟨v.pool, 0⟩) := by
    induction h with
    | nil => exact ⟨[], rfl⟩
    | @cons u t v call calls hstep _ ih =>
      obtain ⟨-, rfl⟩ := hstep
      obtain ⟨addr, hp⟩ := perform_zeroed u call
      obtain ⟨addrs, hrest⟩ := ih
      refine ⟨addr :: addrs, ?_⟩
      rw [List.map_cons, run_cons hp, hrest]
      rfl
  rw [createPool_zeroed]
  exact hfrom h

/-! ## Which bytes an operation reads -/

/-- The page that a request for a small size makes a node of. -/
def Pool.opensSmall (p : Pool) (size : Nat) (page : Option Nat) : Option Nat :=
  if (Pool.mallocFit size (p.small.drop p.current)).isSome then none else page

def Pool.opensMalloc (p : Pool) (size : Nat) (answers : Answers) : Option Nat :=
  if size = 0 then none
  else if PAGE_SIZE - sizeofSmallNode < size then
    match answers.large with
    | none => none
    | some addr =>
      if (Pool.reuse size addr 0 p.largeList).isSome then none
      else p.opensSmall sizeofLargeNode answers.page
  else p.opensSmall size answers.page

/-- The page that an operation makes a node of. -/
def Pool.opens (p : Pool) : PoolCall → Option Nat
  | .malloc size answers => p.opensMalloc size answers
  | .calloc size answers => p.opensMalloc size answers
  | .freeMemory _ => none
  | .resetPool => none

/-- The node in a page with these counters in its memory. -/
def opened (block last quote failed : Nat) : SmallNode :=
  ⟨block, block + PAGE_SIZE, last, (quote + 1) % 2 ^ 32, failed⟩

/-- The two counters of a new node are the same in both memories. -/
def SameCounters (c₁ c₂ : Content) (node : Nat) : Prop :=
  (stale c₁ node).quote = (stale c₂ node).quote ∧ (stale c₁ node).failed = (stale c₂ node).failed

/-- A list that ends with null stays so; where a page is opened its counters are in the last
node, and nothing else depends on the memory. -/
structure Reads (page : Option Nat) (f : Content → Except WildPointer (Nat × Raw)) : Prop where
  returns : ∀ c, ∃ addr s, f c = .ok (addr, s) ∧ s.tail = 0
  same : ∀ c₁ c₂, (∀ block, page = some block → SameCounters c₁ c₂ block) → f c₁ = f c₂
  shows : ∀ c block, page = some block → ∃ addr s init last, f c = .ok (addr, s) ∧
    s.pool.small = init ++ [opened block last (stale c block).quote (stale c block).failed]

theorem reads_nothing {f : Content → Except WildPointer (Nat × Raw)} {x : Nat × Raw}
    (hf : ∀ c, f c = .ok x) (h : x.2.tail = 0) : Reads none f :=
  ⟨fun c => ⟨x.1, x.2, hf c, h⟩, fun c₁ c₂ _ => (hf c₁).trans (hf c₂).symm,
    fun _ _ he => by cases he⟩

theorem reads_mallocSmall {r : Raw} (h : r.tail = 0) (size : Nat) (page : Option Nat) :
    Reads (r.pool.opensSmall size page) (r.mallocSmall size page) := by
  unfold Pool.opensSmall Raw.mallocSmall
  cases hfit : Pool.mallocFit size (r.pool.small.drop r.pool.current) with
  | some s => exact reads_nothing (fun _ => rfl) h
  | none =>
    simp only [h, ↓reduceIte, Option.isSome_none, Bool.false_eq_true]
    cases page with
    | none => exact reads_nothing (fun _ => rfl) h
    | some block =>
      simp only [Raw.mallocSmallNode, posixMemalign, Option.map_some]
      refine ⟨fun c => ⟨_, _, rfl, rfl⟩, fun c₁ c₂ hsame => ?_, fun c b hb => ?_⟩
      · obtain ⟨hquote, hfailed⟩ := hsame block rfl
        simp only [hquote, hfailed]
      · cases hb
        exact ⟨_, _, _, _, rfl, rfl⟩

/-- What is done with the result keeps the small nodes and the end of the list. -/
theorem Reads.map {page : Option Nat} {f g : Content → Except WildPointer (Nat × Raw)}
    (hf : Reads page f) (k : Nat × Raw → Nat × Raw)
    (hk : ∀ x, (k x).2.tail = x.2.tail ∧ (k x).2.pool.small = x.2.pool.small)
    (hg : ∀ c x, f c = .ok x → g c = .ok (k x)) : Reads page g := by
  refine ⟨fun c => ?_, fun c₁ c₂ hsame => ?_, fun c block hb => ?_⟩
  · obtain ⟨addr, s, hs, htail⟩ := hf.returns c
    exact ⟨_, _, hg c _ hs, (hk _).1.trans htail⟩
  · obtain ⟨addr, s, hs, -⟩ := hf.returns c₁
    rw [hg c₁ _ hs, hg c₂ _ ((hf.same c₁ c₂ hsame).symm.trans hs)]
  · obtain ⟨addr, s, init, last, hs, hsmall⟩ := hf.shows c block hb
    exact ⟨_, _, init, last, hg c _ hs, (hk _).2.trans hsmall⟩

theorem reads_mallocLargeNode {r : Raw} (h : r.tail = 0) (size : Nat) (answers : Answers) :
    Reads (match answers.large with
      | none => none
      | some addr =>
        if (Pool.reuse size addr 0 r.pool.largeList).isSome then none
        else r.pool.opensSmall sizeofLargeNode answers.page) (r.mallocLargeNode size answers) := by
  unfold Raw.mallocLargeNode posixMemalign
  cases answers.large with
  | none => exact reads_nothing (fun _ => rfl) h
  | some addr =>
    simp only [Option.map_some]
    cases Pool.reuse size addr 0 r.pool.largeList with
    | some largeList => exact reads_nothing (fun _ => rfl) h
    | none =>
      have hsmall := reads_mallocSmall (r := { r with pool := { r.pool with
        heap := ⟨addr, size⟩ :: r.pool.heap } }) h sizeofLargeNode answers.page
      refine hsmall.map (fun x =>
        if x.1 = 0 then (0, { x.2 with pool := { x.2.pool with heap := free x.2.pool.heap addr } })
        else (addr, { x.2 with pool := { x.2.pool with
          largeList := ⟨x.1, addr, size % 2 ^ 32⟩ :: x.2.pool.largeList } })) ?_ ?_
      · intro x
        dsimp only
        split <;> exact ⟨rfl, rfl⟩
      · intro c x hx
        rw [hx]
        simp only [bind, Except.bind, pure, Except.pure]
        split <;> rfl

theorem reads_perform {r : Raw} (h : r.tail = 0) (call : PoolCall) :
    Reads (r.pool.opens call) (r.perform call) := by
  have hmalloc (size : Nat) (answers : Answers) :
      Reads (r.pool.opensMalloc size answers) (r.malloc size answers) := by
    unfold Pool.opensMalloc Raw.malloc
    split
    · exact reads_nothing (fun _ => rfl) h
    · split
      · exact reads_mallocLargeNode h size answers
      · exact reads_mallocSmall h size answers.page
  cases call with
  | malloc size answers => exact hmalloc size answers
  | calloc size answers => exact hmalloc size answers
  | freeMemory q =>
    have hfree : ∃ s, r.freeMemory q = .ok s ∧ s.tail = 0 := by
      unfold Raw.freeMemory
      cases Pool.clearLarge q r.pool.largeList with
      | some largeList => exact ⟨_, rfl, h⟩
      | none =>
        cases r.pool.releaseSmall q r.pool.small with
        | some s => exact ⟨_, rfl, h⟩
        | none => exact ⟨r, if_pos h, h⟩
    obtain ⟨s, hs, htail⟩ := hfree
    exact reads_nothing (x := (0, s)) (fun c => by rw [Raw.perform, hs]; rfl) htail
  | resetPool =>
    have hreset : r.resetPool = .ok { r with pool := r.pool.resetPool } := if_pos h
    exact reads_nothing (x := (0, { r with pool := r.pool.resetPool }))
      (fun c => by rw [Raw.perform, hreset]; rfl) h

/-! ## Two runs -/

/-- A call with the bytes that a page holds if it is granted one, in two runs. -/
abbrev TwinCall := PoolCall × Content × Content

def left (calls : List TwinCall) : List (PoolCall × Content) := calls.map fun x => (x.1, x.2.1)

def right (calls : List TwinCall) : List (PoolCall × Content) := calls.map fun x => (x.1, x.2.2)

/-- Two runs that returned the same addresses and left the same blocks with the same fields. -/
def SameResult (x y : Except WildPointer (List Nat × Raw)) : Prop :=
  ∃ addrs r s blocks, x = .ok (addrs, r) ∧ y = .ok (addrs, s) ∧
    r.chain = some blocks ∧ s.chain = some blocks

theorem chain_eq_some_iff {r : Raw} {blocks : List SmallNode} :
    r.chain = some blocks ↔ r.tail = 0 ∧ r.pool.small = blocks := by
  unfold Raw.chain
  split
  · rename_i h
    simp only [Option.some.injEq, h, true_and]
  · rename_i h
    simp only [reduceCtorEq, h, false_and]

theorem sameResult_refl {r : Raw} (h : r.tail = 0) (addrs : List Nat) :
    SameResult (.ok (addrs, r)) (.ok (addrs, r)) :=
  ⟨addrs, r, r, r.pool.small, rfl, rfl, chain_eq_some_iff.mpr ⟨h, rfl⟩,
    chain_eq_some_iff.mpr ⟨h, rfl⟩⟩

theorem sameResult_cons {x y : Except WildPointer (List Nat × Raw)} (addr : Nat) :
    SameResult (x.map fun x => (addr :: x.1, x.2)) (y.map fun x => (addr :: x.1, x.2)) ↔
      SameResult x y := by
  constructor
  · rintro ⟨addrs, r, s, blocks, hx, hy, hr, hs⟩
    cases x with
    | error e => cases hx
    | ok x =>
      cases y with
      | error e => cases hy
      | ok y =>
        obtain ⟨hax, rfl⟩ := Prod.mk.inj (Except.ok.inj hx)
        obtain ⟨hay, rfl⟩ := Prod.mk.inj (Except.ok.inj hy)
        have haddrs : y.1 = x.1 := (List.cons.inj (hay.trans hax.symm)).2
        exact ⟨x.1, x.2, y.2, blocks, rfl, by rw [← haddrs], hr, hs⟩
  · rintro ⟨addrs, r, s, blocks, rfl, rfl, hr, hs⟩
    exact ⟨addr :: addrs, r, s, blocks, rfl, rfl, hr, hs⟩

/-- The counters of a new page are visible at once. -/
theorem sameCounters_of_sameResult {r : Raw} {call : PoolCall} {c₁ c₂ : Content} {block : Nat}
    (h : r.tail = 0) (ho : r.pool.opens call = some block)
    (hs : SameResult (r.run [(call, c₁)]) (r.run [(call, c₂)])) : SameCounters c₁ c₂ block := by
  obtain ⟨addr₁, s₁, init₁, last₁, hp₁, hsmall₁⟩ := (reads_perform h call).shows c₁ block ho
  obtain ⟨addr₂, s₂, init₂, last₂, hp₂, hsmall₂⟩ := (reads_perform h call).shows c₂ block ho
  obtain ⟨addrs, t₁, t₂, blocks, hr₁, hr₂, ht₁, ht₂⟩ := hs
  rw [run_cons hp₁] at hr₁
  rw [run_cons hp₂] at hr₂
  obtain ⟨-, rfl⟩ := Prod.mk.inj (Except.ok.inj hr₁)
  obtain ⟨-, rfl⟩ := Prod.mk.inj (Except.ok.inj hr₂)
  have hb₁ := (chain_eq_some_iff.mp ht₁).2
  have hb₂ := (chain_eq_some_iff.mp ht₂).2
  have hlist : init₁ ++ [opened block last₁ (stale c₁ block).quote (stale c₁ block).failed] =
      init₂ ++ [opened block last₂ (stale c₂ block).quote (stale c₂ block).failed] :=
    hsmall₁.symm.trans (hb₁.trans (hb₂.symm.trans hsmall₂))
  have hnode := List.singleton_inj.mp (List.append_inj_right' hlist rfl)
  have hquote := congrArg SmallNode.quote hnode
  have hfailed := congrArg SmallNode.failed hnode
  have hlt₁ : (stale c₁ block).quote < 2 ^ 32 := load_lt c₁ (block + 16) 4
  have hlt₂ : (stale c₂ block).quote < 2 ^ 32 := load_lt c₂ (block + 16) 4
  refine ⟨?_, hfailed⟩
  simp only [opened] at hquote
  omega

/-- Runs from one pool go the same way exactly if the counters of each page that they open are
the same in both memories. -/
theorem runs_agree_iff {r : Raw} (h : r.tail = 0) (calls : List TwinCall) :
    (∀ pre post, calls = pre ++ post → SameResult (r.run (left pre)) (r.run (right pre))) ↔
      ∀ pre call c₁ c₂ post addrs s block, calls = pre ++ (call, c₁, c₂) :: post →
        r.run (left pre) = .ok (addrs, s) → s.pool.opens call = some block →
          SameCounters c₁ c₂ block := by
  induction calls generalizing r with
  | nil =>
    constructor
    · intro _ pre call c₁ c₂ post addrs s block he
      simp at he
    · intro _ pre post he
      obtain ⟨rfl, -⟩ := List.append_eq_nil_iff.mp he.symm
      exact sameResult_refl h []
  | cons x calls ih =>
    obtain ⟨call, c₁, c₂⟩ := x
    by_cases hsame : ∀ block, r.pool.opens call = some block → SameCounters c₁ c₂ block
    · obtain ⟨addr, s, hp₁, htail⟩ := (reads_perform h call).returns c₁
      have hp₂ : r.perform call c₂ = .ok (addr, s) :=
        ((reads_perform h call).same c₁ c₂ hsame).symm.trans hp₁
      constructor
      · intro hall
        have hrest := (ih htail).mp fun pre post he => by
          have hone := hall ((call, c₁, c₂) :: pre) post (by rw [he]; rfl)
          simp only [left, right, List.map_cons] at hone
          rw [run_cons hp₁, run_cons hp₂, sameResult_cons] at hone
          exact hone
        intro pre call' d₁ d₂ post addrs t block he hrun ho
        cases pre with
        | nil =>
          cases he
          cases hrun
          exact hsame block ho
        | cons y pre =>
          cases he
          obtain ⟨rest, -, hs⟩ := (run_cons_ok_iff hp₁ (left pre) addrs).mp hrun
          exact hrest pre call' d₁ d₂ post rest t block rfl hs ho
      · intro hall
        have hrest := (ih htail).mpr fun pre call' d₁ d₂ post addrs t block he hrun ho => by
          refine hall ((call, c₁, c₂) :: pre) call' d₁ d₂ post (addr :: addrs) t block
            (by rw [he]; rfl) ?_ ho
          exact (run_cons_ok_iff hp₁ (left pre) _).mpr ⟨addrs, rfl, hrun⟩
        intro pre post he
        cases pre with
        | nil => exact sameResult_refl h []
        | cons y pre =>
          cases he
          simp only [left, right, List.map_cons]
          rw [run_cons hp₁, run_cons hp₂, sameResult_cons]
          exact hrest pre post rfl
    · simp only [not_forall] at hsame
      obtain ⟨block, ho, hdiff⟩ := hsame
      constructor
      · intro hall
        exact absurd (sameCounters_of_sameResult h ho (hall [(call, c₁, c₂)] calls rfl)) hdiff
      · intro hall
        exact absurd (hall [] call c₁ c₂ calls [] r block rfl rfl ho) hdiff

/-- In both memories, the first node's `next_` is null, and its `quote_` is the same. -/
structure SameHead (page : Nat) (c₁ c₂ : Content) : Prop where
  next₁ : (stale c₁ (page + sizeofPool)).next = 0
  next₂ : (stale c₂ (page + sizeofPool)).next = 0
  quote : (stale c₁ (page + sizeofPool)).quote = (stale c₂ (page + sizeofPool)).quote

theorem createPool_tail (page : Nat) (c : Content) :
    (Raw.createPool page c).tail = (stale c (page + sizeofPool)).next := by
  rw [Raw.createPool]

/-- On such memories the two pools are one. -/
theorem SameHead.createPool_eq {page : Nat} {c₁ c₂ : Content} (h : SameHead page c₁ c₂) :
    Raw.createPool page c₁ = Raw.createPool page c₂ ∧ (Raw.createPool page c₂).tail = 0 := by
  refine ⟨?_, (createPool_tail page c₂).trans h.next₂⟩
  simp only [Raw.createPool, h.quote, h.next₁, h.next₂]

theorem sameResult_createPool_iff {page : Nat} {c₁ c₂ : Content} :
    SameResult ((Raw.createPool page c₁).run []) ((Raw.createPool page c₂).run []) ↔
      SameHead page c₁ c₂ := by
  constructor
  · rintro ⟨addrs, r, s, blocks, hr, hs, hcr, hcs⟩
    obtain ⟨-, rfl⟩ := Prod.mk.inj (Except.ok.inj hr)
    obtain ⟨-, rfl⟩ := Prod.mk.inj (Except.ok.inj hs)
    obtain ⟨htail₁, hb₁⟩ := chain_eq_some_iff.mp hcr
    obtain ⟨htail₂, hb₂⟩ := chain_eq_some_iff.mp hcs
    have hnode := List.singleton_inj.mp (hb₁.trans hb₂.symm)
    rw [createPool_tail] at htail₁ htail₂
    exact ⟨htail₁, htail₂, congrArg SmallNode.quote hnode⟩
  · intro h
    obtain ⟨hsame, htail⟩ := h.createPool_eq
    rw [hsame]
    exact sameResult_refl htail []

/-- Two runs of a pool on memories with arbitrary bytes return the same addresses and leave the
same blocks after `CreatePool` and after every operation if and only if the first node's `next_`
is null in both memories and its `quote_` the same, and `quote_` and `failed_` are the same in
both for each page that becomes a block. -/
theorem pool_independent_of_memory_iff (page : Nat) (c₁ c₂ : Content) (calls : List TwinCall) :
    (∀ pre post, calls = pre ++ post → SameResult ((Raw.createPool page c₁).run (left pre))
        ((Raw.createPool page c₂).run (right pre))) ↔
      SameHead page c₁ c₂ ∧
        ∀ pre call d₁ d₂ post addrs s block, calls = pre ++ (call, d₁, d₂) :: post →
          (Raw.createPool page c₁).run (left pre) = .ok (addrs, s) →
            s.pool.opens call = some block → SameCounters d₁ d₂ block := by
  by_cases hhead : SameHead page c₁ c₂
  · obtain ⟨hsame, htail⟩ := hhead.createPool_eq
    rw [hsame, runs_agree_iff htail]
    exact (and_iff_right hhead).symm
  · constructor
    · intro hall
      exact absurd (sameResult_createPool_iff.mp (hall [] calls rfl)) hhead
    · intro h
      exact absurd h.1 hhead

/-- Memory that is zero but for one byte. -/
def spotted (a : Nat) (byte : UInt8) : Content := fun b => if b = a then byte else 0

/-- A 1 in `quote_` of the first node: the page is never taken for empty, and the third call
returns another address. A 1 in its `next_`: a request that does not fit follows it. -/
theorem pool_depends_on_memory :
    ((Raw.createPool 4096 zeroed).run [(.malloc 16 ⟨none, none⟩, zeroed),
      (.freeMemory 4160, zeroed), (.malloc 16 ⟨none, none⟩, zeroed)]).map Prod.fst =
        .ok [4160, 0, 4160] ∧
    ((Raw.createPool 4096 (spotted 4136 1)).run [(.malloc 16 ⟨none, none⟩, zeroed),
      (.freeMemory 4160, zeroed), (.malloc 16 ⟨none, none⟩, zeroed)]).map Prod.fst =
        .ok [4160, 0, 4176] ∧
    ((Raw.createPool 4096 zeroed).run [(.malloc 4064 ⟨none, some 8192⟩, zeroed)]).map Prod.fst =
      .ok [8224] ∧
    (Raw.createPool 4096 (spotted 4144 1)).run [(.malloc 4064 ⟨none, some 8192⟩, zeroed)] =
      .error .wildPointer := by
  refine ⟨?_, ?_, ?_, ?_⟩
  · decide +kernel
  · decide +kernel
  · decide +kernel
  · decide +kernel

end RyanNetwork.MemoryPool

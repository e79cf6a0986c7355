import RyanNetwork.Lib.Extents
import RyanNetwork.Lib.SizeT

/-!
# `MemoryPool`

Small allocations are cut from the front of pages, each with a `SmallNode` at its
beginning; large ones are regions of their own, listed in `LargeNode` records that are
themselves cut from the pages. Addresses are natural numbers, the null pointer is 0. The
heap is the list of regions that `posix_memalign` has granted and `free` has not taken
back; what it grants is an argument of each operation. Pages are granted zero-filled.
-/
namespace RyanNetwork.MemoryPool

open Lib

set_option autoImplicit false

def PAGE_SIZE : Nat := 4096

def MP_ALIGNMENT : Nat := 16

def sizeofPool : Nat := 24

def sizeofSmallNode : Nat := 32

def sizeofLargeNode : Nat := 24

/-- `mp_align_ptr` for an alignment that is a power of two. -/
def mpAlignPtr (p alignment : Nat) : Nat := (p + alignment - 1) / alignment * alignment

/-- `addr` is where the node itself stands. -/
structure SmallNode where
  addr : Nat
  end_ : Nat
  last : Nat
  quote : Nat
  failed : Nat
  deriving DecidableEq, Repr

structure LargeNode where
  addr : Nat
  address : Nat
  size : Nat
  deriving DecidableEq, Repr

/-- `small` are the nodes from `head_` along `next_`, and `current` the position of
`current_` among them. -/
structure Pool where
  addr : Nat
  largeList : List LargeNode
  small : List SmallNode
  current : Nat
  heap : List Extent
  deriving DecidableEq, Repr

/-- What `posix_memalign` answers in one call of `malloc`: to the request for a large
region, and to the one for a page. -/
structure Answers where
  large : Option Nat
  page : Option Nat

def posixMemalign (heap : List Extent) (answer : Option Nat) (size : Nat) :
    Option (Nat × List Extent) :=
  answer.map fun a => (a, ⟨a, size⟩ :: heap)

def free (heap : List Extent) (p : Nat) : List Extent := heap.eraseP (·.addr = p)

namespace Pool

/-- `CreatePool` when it is granted the page at `page`. -/
def createPool (page : Nat) : Pool where
  addr := page
  largeList := []
  small := [⟨page + sizeofPool, page + PAGE_SIZE, page + sizeofPool + sizeofSmallNode, 0, 0⟩]
  current := 0
  heap := [⟨page, PAGE_SIZE⟩]

/-- `cur->end_ - addr >= size`: the difference of the pointers is converted to `size_t`. -/
def fits (node : SmallNode) (addr size : Nat) : Bool :=
  size ≤ SizeT.ofInt ((node.end_ : Int) - addr)

/-- The loop of `malloc` over the nodes from `current_` on. -/
def mallocFit (size : Nat) : List SmallNode → Option (Nat × List SmallNode)
  | [] => none
  | cur :: rest =>
    let addr := mpAlignPtr cur.last MP_ALIGNMENT
    if fits cur addr size then
      some (addr, { cur with quote := (cur.quote + 1) % 2 ^ 32, last := addr + size } :: rest)
    else (mallocFit size rest).map fun r => (r.1, cur :: r.2)

/-- The loop of `MallocSmallNode` from `current_` to the last node: `pos` is the
position of the first node of the list. -/
def countFailures (pos current : Nat) : List SmallNode → List SmallNode × Nat
  | [] => ([], current)
  | [cur] => ([cur], current)
  | cur :: next :: rest =>
    let r := countFailures (pos + 1) (if 5 ≤ cur.failed then pos + 1 else current) (next :: rest)
    ({ cur with failed := (cur.failed + 1) % 2 ^ 32 } :: r.1, r.2)

def mallocSmallNode (p : Pool) (size : Nat) (page : Option Nat) : Nat × Pool :=
  match posixMemalign p.heap page PAGE_SIZE with
  | none => (0, p)
  | some (block, heap) =>
    let addr := mpAlignPtr (block + sizeofSmallNode) MP_ALIGNMENT
    let node : SmallNode := ⟨block, block + PAGE_SIZE, addr + size, 1, 0⟩
    let walked := countFailures p.current p.current (p.small.drop p.current)
    (addr, { p with
      heap := heap
      small := p.small.take p.current ++ walked.1 ++ [node]
      current := walked.2 })

/-- `malloc` of a size that is not 0 and not large. -/
def mallocSmall (p : Pool) (size : Nat) (page : Option Nat) : Nat × Pool :=
  match mallocFit size (p.small.drop p.current) with
  | some (addr, nodes) => (addr, { p with small := p.small.take p.current ++ nodes })
  | none => p.mallocSmallNode size page

/-- The search of `MallocLargeNode` for a record without a region, which then gets the
new one. -/
def reuse (size addr : Nat) : Nat → List LargeNode → Option (List LargeNode)
  | _, [] => none
  | count, node :: rest =>
    if node.address = 0 then some ({ node with size := size % 2 ^ 32, address := addr } :: rest)
    else if 3 < count then none
    else (reuse size addr (count + 1) rest).map (node :: ·)

/-- The request for the record, `malloc(sizeof(LargeNode))`, is a small one. -/
def mallocLargeNode (p : Pool) (size : Nat) (answers : Answers) : Nat × Pool :=
  match posixMemalign p.heap answers.large size with
  | none => (0, p)
  | some (addr, heap) =>
    match reuse size addr 0 p.largeList with
    | some largeList => (addr, { p with heap := heap, largeList := largeList })
    | none =>
      let r := mallocSmall { p with heap := heap } sizeofLargeNode answers.page
      if r.1 = 0 then (0, { r.2 with heap := free r.2.heap addr })
      else (addr, { r.2 with largeList := ⟨r.1, addr, size % 2 ^ 32⟩ :: r.2.largeList })

def malloc (p : Pool) (size : Nat) (answers : Answers) : Nat × Pool :=
  if size = 0 then (0, p)
  else if PAGE_SIZE - sizeofSmallNode < size then p.mallocLargeNode size answers
  else p.mallocSmall size answers.page

/-- `Calloc`: the `memset` writes the bytes of the allocation only. -/
def calloc (p : Pool) (size : Nat) (answers : Answers) : Nat × Pool := p.malloc size answers

/-- The search of `FreeMemory` for a record of the region. -/
def clearLarge (q : Nat) : List LargeNode → Option (List LargeNode)
  | [] => none
  | large :: rest =>
    if large.address = q then some ({ large with size := 0, address := 0 } :: rest)
    else (clearLarge q rest).map (large :: ·)

/-- Where a node whose last reference is gone starts again. -/
def firstFree (p : Pool) (node : SmallNode) : Nat :=
  if node.addr = p.addr + sizeofPool then p.addr + sizeofPool + sizeofSmallNode
  else node.addr + sizeofSmallNode

/-- The search of `FreeMemory` for the page of the address; whether the page is empty
now. -/
def releaseSmall (p : Pool) (q : Nat) : List SmallNode → Option (List SmallNode × Bool)
  | [] => none
  | small :: rest =>
    if small.addr ≤ q ∧ q ≤ small.end_ then
      let quote := (small.quote + 2 ^ 32 - 1) % 2 ^ 32
      if quote = 0 then
        some ({ small with quote := quote, last := p.firstFree small, failed := 0 } :: rest, true)
      else some ({ small with quote := quote } :: rest, false)
    else (releaseSmall p q rest).map fun r => (small :: r.1, r.2)

def freeMemory (p : Pool) (q : Nat) : Pool :=
  match clearLarge q p.largeList with
  | some largeList => { p with heap := free p.heap q, largeList := largeList }
  | none =>
    match p.releaseSmall q p.small with
    | some (small, empty) =>
      { p with small := small, current := if empty then 0 else p.current }
    | none => p

def resetPool (p : Pool) : Pool where
  addr := p.addr
  largeList := []
  small := p.small.map fun node =>
    { node with last := node.addr + sizeofSmallNode, failed := 0, quote := 0 }
  current := 0
  heap := p.largeList.foldl (fun heap large =>
    if large.address = 0 then heap else free heap large.address) p.heap

end Pool

end RyanNetwork.MemoryPool

import RyanNetwork.MemoryPool.Skipping

/-!
# `DestroyPool`

The records of the large regions stand in the pages, and every page but the first begins
with its own node. `DestroyPool` gives the large regions back first, while the pages are
still there. Its loop over the pages reads `next_` of a node after it has given the page of
the node back; the variable `next`, which holds the pointer from before, is not used.
-/
namespace RyanNetwork.MemoryPool.Destroy

open Lib SmallNode Skipping

set_option autoImplicit false

def largeRecord (large : LargeNode) : Extent := ⟨large.addr, sizeofLargeNode⟩

def smallRecord (small : SmallNode) : Extent := ⟨small.addr, sizeofSmallNode⟩

/-- The loop over the records of the large regions. -/
def destroyLarge (l : Ledger) : List LargeNode → Except Ledger.Fault Ledger
  | [] => .ok l
  | large :: rest => do
    l.access (largeRecord large)
    let l ← if large.address ≠ 0 then l.release large.address else .ok l
    l.access (largeRecord large)
    destroyLarge l rest

/-- The loop over the pages behind the first. -/
def destroySmall (l : Ledger) : List SmallNode → Except Ledger.Fault Ledger
  | [] => .ok l
  | cur :: rest => do
    l.access (smallRecord cur)
    let l ← l.release cur.addr
    l.access (smallRecord cur)
    destroySmall l rest

/-- `head_` stands behind the `Pool`. -/
def destroyPool (p : Pool) : Except Ledger.Fault Ledger := do
  let l : Ledger := ⟨p.heap, []⟩
  l.access ⟨p.addr, sizeofPool⟩
  let l ← destroyLarge l p.largeList
  l.access ⟨p.addr, sizeofPool⟩
  l.access ⟨p.addr + sizeofPool, sizeofSmallNode⟩
  let l ← destroySmall l p.small.tail
  l.release p.addr

/-- Every region of the heap is given back once, and nothing else is; no record is read
after its region was given back. -/
def DestroysOnce (p : Pool) : Prop :=
  ∃ l, destroyPool p = .ok l ∧ l.heap = [] ∧ l.freed.Perm p.heap

/-! ## The operations before -/

/-- The regions that `posix_memalign` grants in a call of `malloc`. -/
def mallocGrants (p : Pool) (size : Nat) (answers : Answers) : List Extent :=
  (if makesBlock p size answers then answers.page.toList.map (⟨·, PAGE_SIZE⟩) else []) ++
    if PAGE_SIZE - sizeofSmallNode < size then answers.large.toList.map (⟨·, size⟩) else []

/-- The addresses that a call of `malloc` passes to `free`: that of a large region for which
there is no record. -/
def mallocFrees (p : Pool) (size : Nat) (answers : Answers) : List Nat :=
  if PAGE_SIZE - sizeofSmallNode < size then
    match answers.large with
    | none => []
    | some a =>
      if (Pool.reuse size a 0 p.largeList).isSome then []
      else if (Pool.mallocSmall { p with heap := ⟨a, size⟩ :: p.heap } sizeofLargeNode
        answers.page).1 = 0 then [a] else []
  else []

def grants (p : Pool) : PoolCall → List Extent
  | .malloc size answers => mallocGrants p size answers
  | .calloc size answers => mallocGrants p size answers
  | .freeMemory _ => []
  | .resetPool => []

def frees (p : Pool) : PoolCall → List Nat
  | .malloc size answers => mallocFrees p size answers
  | .calloc size answers => mallocFrees p size answers
  | .freeMemory q => if (Pool.clearLarge q p.largeList).isSome then [q] else []
  | .resetPool => addresses p.largeList

/-- The pages of the chain and the regions that the records name. -/
def owned (p : Pool) : List Nat := p.small.map (fun b => b.region.addr) ++ addresses p.largeList

/-- A call gives back only regions that are there, and the regions left over are those that
the pool knows, each of them once. -/
structure Accounted (u : Use) (c : PoolCall) (v : Use) : Prop where
  conserved : (Ledger.releaseAll ⟨grants u.pool c ++ u.pool.heap, []⟩ (frees u.pool c)).map
    Ledger.heap = .ok v.pool.heap
  known : (v.pool.heap.map Extent.addr).Perm (owned v.pool)

/-! ## What `DestroyPool` gives back -/

section Destroy

variable {p : Pool} {small large : List Extent}

/-- With the records in regions that stay, the loop over them gives back what they name. -/
theorem destroyLarge_eq {l : Ledger} {ns : List LargeNode}
    (h : ∀ n ∈ ns, ∃ r ∈ l.heap, (largeRecord n).Within r ∧ r.addr ∉ addresses ns) :
    destroyLarge l ns = l.releaseAll (addresses ns) := by
  induction ns generalizing l with
  | nil => rfl
  | cons n ns ih =>
    obtain ⟨r, hr, hin, hstays⟩ := h n List.mem_cons_self
    rw [destroyLarge, Ledger.access_ok hr hin, ok_bind, addresses_cons]
    rw [addresses_cons] at hstays
    by_cases hz : n.address = 0
    · rw [if_neg (not_not.mpr hz), if_pos hz, ok_bind]
      dsimp only
      rw [Ledger.access_ok hr hin, ok_bind]
      refine ih fun m hm => ?_
      obtain ⟨s, hs, hsin, hno⟩ := h m (List.mem_cons_of_mem _ hm)
      rw [addresses_cons, if_pos hz] at hno
      exact ⟨s, hs, hsin, hno⟩
    · rw [if_pos hz, if_neg hz, Ledger.releaseAll]
      rw [if_neg hz] at hstays
      cases hrel : l.release n.address with
      | error e => rfl
      | ok l' =>
        have hheap := Ledger.release_heap hz hrel
        have hkeeps (s : Extent) (hs : s ∈ l.heap) (hne : s.addr ≠ n.address) : s ∈ l'.heap := by
          rw [hheap, List.mem_eraseP_of_neg (by simpa using hne)]
          exact hs
        have hrne : r.addr ≠ n.address := fun he => hstays (by rw [he]; exact List.mem_cons_self)
        rw [ok_bind, ok_bind]
        dsimp only
        rw [Ledger.access_ok (hkeeps r hr hrne) hin, ok_bind]
        refine ih fun m hm => ?_
        obtain ⟨s, hs, hsin, hno⟩ := h m (List.mem_cons_of_mem _ hm)
        rw [addresses_cons, if_neg hz, List.mem_cons, not_or] at hno
        exact ⟨s, hkeeps s hs hno.1, hsin, hno.2⟩

/-- When the loop over the pages begins, the large regions are given back and the pages are
there. -/
theorem destroyPool_pages (h : Layout p small large) :
    ∃ l : Ledger, l.heap.Perm (p.small.map region) ∧ l.freed.Perm large ∧
      destroyPool p = destroySmall l p.small.tail >>= fun l => l.release p.addr := by
  obtain ⟨b, rest, hs, hregion, -⟩ := head_region h.pages
  have hfirst : b.region ∈ p.small.map region := by
    rw [hs]
    exact List.mem_cons_self
  obtain ⟨l, hl, -, hpages, hfreed⟩ := releaseLarge h
  have hrecords (n : LargeNode) (hn : n ∈ p.largeList) :
      ∃ r ∈ p.heap, (largeRecord n).Within r ∧ r.addr ∉ addresses p.largeList := by
    have hmem : largeRecord n ∈ small ++ p.records :=
      List.mem_append_right _ (List.mem_map_of_mem hn)
    obtain ⟨-, c, hc, hin⟩ := h.pages.carved.placed _ hmem
    refine ⟨c.region, h.pages.owned c hc, inside_within (h.pages.carved.nodes c hc) hin, ?_⟩
    rw [h.listed.mem_iff]
    intro hnamed
    obtain ⟨x, hx, haddr⟩ := List.mem_map.mp hnamed
    have hd := h.pages.cross x hx c.region (List.mem_map_of_mem hc)
    exact hd.addr_ne (h.pages.large x hx).2.1 (show 0 < PAGE_SIZE by decide) haddr
  have hpool : (⟨p.addr, sizeofPool⟩ : Extent).Within b.region := by
    rw [hregion]
    exact ⟨le_refl _, Nat.add_le_add_left (show sizeofPool ≤ PAGE_SIZE by decide) _⟩
  have hnode : (⟨p.addr + sizeofPool, sizeofSmallNode⟩ : Extent).Within b.region := by
    rw [hregion]
    refine ⟨Nat.le_add_right _ _, ?_⟩
    show p.addr + sizeofPool + sizeofSmallNode ≤ p.addr + PAGE_SIZE
    unfold sizeofPool sizeofSmallNode PAGE_SIZE
    omega
  have hbefore : b.region ∈ p.heap := h.pages.heap.mem_iff.mpr (List.mem_append_left _ hfirst)
  have hafter : b.region ∈ l.heap := hpages.mem_iff.mpr hfirst
  refine ⟨l, hpages, hfreed, ?_⟩
  unfold destroyPool
  dsimp only
  rw [Ledger.access_ok hbefore hpool, ok_bind, destroyLarge_eq hrecords, hl, ok_bind,
    Ledger.access_ok hafter hpool, ok_bind, Ledger.access_ok hafter hnode, ok_bind]

/-- A pool with its first page only. -/
theorem destroysOnce_of_single (h : Layout p small large) (hlen : p.small.length = 1) :
    DestroysOnce p := by
  obtain ⟨l, hpages, hfreed, hdestroy⟩ := destroyPool_pages h
  obtain ⟨b, rest, hs, hregion, -⟩ := head_region h.pages
  have hrest : rest = [] := by
    rw [hs, List.length_cons] at hlen
    exact List.length_eq_zero_iff.mp (Nat.succ.inj hlen)
  rw [hs, hrest] at hpages hdestroy
  have hsep : Ledger.Separate [b.region] := by
    have hall := layout_separate h
    rw [hs, hrest] at hall
    exact ⟨List.pairwise_singleton _ _, fun r hr => hall.real r (List.mem_append_right _ hr)⟩
  obtain ⟨hok, hempty⟩ := Ledger.release_perm hsep hpages
  rw [hregion] at hok hempty
  refine ⟨_, hdestroy.trans hok, hempty.eq_nil, ?_⟩
  have hheap := h.pages.heap
  rw [hs, hrest] at hheap
  rw [← hregion]
  exact (hfreed.cons _).trans hheap.symm

/-- With a second page, the loop faults. -/
theorem destroySmall_faults {l : Ledger} {b : SmallNode} {rest : List SmallNode}
    {regions : List Extent} (hb : b.Ok) (hsep : Ledger.Separate (b.region :: regions))
    (hl : l.heap.Perm (b.region :: regions)) : ∀ l', destroySmall l (b :: rest) ≠ .ok l' := by
  obtain ⟨hend, -, -, haddr⟩ := region_spec hb
  have hused := hb.used
  have hlast := hb.last_le
  have hlow : b.region.addr ≤ b.addr := by omega
  have hin : (smallRecord b).Within b.region := by
    refine ⟨hlow, ?_⟩
    show b.addr + sizeofSmallNode ≤ b.region.addr + PAGE_SIZE
    omega
  intro l' hok
  rw [destroySmall, Ledger.access_ok (hl.mem_iff.mpr List.mem_cons_self) hin, ok_bind] at hok
  obtain ⟨m, hm, hok⟩ := bind_ok hok
  have hhigh : b.addr < b.region.addr + b.region.size := by
    show b.addr < b.region.addr + PAGE_SIZE
    unfold sizeofSmallNode at hused
    omega
  have hfirst := Ledger.addr_of_release hsep hl hlow hhigh hm
  obtain ⟨hfreed, hleft⟩ := Ledger.release_perm hsep hl
  rw [← hfirst, hm] at hfreed
  cases hfreed
  rw [← hfirst] at hleft
  rw [Ledger.dangling_of_release hsep hleft hin (show 0 < sizeofSmallNode by decide)] at hok
  cases hok

theorem not_destroysOnce_of_pages (h : Layout p small large) (hlen : p.small.length ≠ 1) :
    ¬DestroysOnce p := by
  rintro ⟨l', hok, -⟩
  obtain ⟨l, hpages, -, hdestroy⟩ := destroyPool_pages h
  obtain ⟨b, rest, hs, -⟩ := head_region h.pages
  cases hrest : rest with
  | nil =>
    rw [hs, hrest] at hlen
    exact hlen rfl
  | cons c rest =>
    rw [hs, hrest] at hpages hdestroy
    rw [hdestroy] at hok
    obtain ⟨m, hm, -⟩ := bind_ok hok
    have hall := layout_separate h
    rw [hs, hrest] at hall
    have hswap : ((b :: c :: rest).map region).Perm (c.region :: b.region :: rest.map region) :=
      List.Perm.swap _ _ _
    have hsep : Ledger.Separate (c.region :: b.region :: rest.map region) :=
      Ledger.Separate.perm ⟨(List.pairwise_append.mp hall.disjoint).2.1,
        fun r hr => hall.real r (List.mem_append_right _ hr)⟩ hswap
    have hc : c.Ok := h.pages.carved.nodes c (by rw [hs, hrest]; simp)
    exact destroySmall_faults hc hsep (hpages.trans hswap) m hm

end Destroy

/-! ## What the other operations give back -/

theorem mallocSmall_heap (p : Pool) (size : Nat) (page : Option Nat) :
    (p.mallocSmall size page).2.heap =
      (if (Pool.mallocFit size (p.small.drop p.current)).isNone && page.isSome then
        page.toList.map (⟨·, PAGE_SIZE⟩) else []) ++ p.heap := by
  unfold Pool.mallocSmall
  cases Pool.mallocFit size (p.small.drop p.current) with
  | some r => rfl
  | none =>
    cases page with
    | none => rfl
    | some block => rfl

/-- A call of `malloc` gives back a region only if it was granted one. -/
theorem malloc_conserved {p : Pool} {size : Nat} {answers : Answers}
    (hg : Granted p.heap size answers) :
    (Ledger.releaseAll ⟨mallocGrants p size answers ++ p.heap, []⟩
      (mallocFrees p size answers)).map Ledger.heap = .ok (p.malloc size answers).2.heap := by
  unfold mallocGrants mallocFrees makesBlock cutSize Pool.malloc
  by_cases hz : size = 0
  · simp only [hz, ↓reduceIte]
    rfl
  · rw [if_neg hz, if_neg hz]
    by_cases hlarge : PAGE_SIZE - sizeofSmallNode < size
    · rw [if_pos hlarge, if_pos hlarge, if_pos hlarge, if_pos hlarge]
      unfold Pool.mallocLargeNode posixMemalign
      cases ha : answers.large with
      | none => rfl
      | some a =>
        have hpos : a ≠ 0 := Nat.ne_of_gt (hg.large a ha hlarge).pos
        rcases Option.eq_none_or_eq_some (Pool.reuse size a 0 p.largeList) with
          hreuse | ⟨largeList, hreuse⟩
        · have hheap := mallocSmall_heap { p with heap := ⟨a, size⟩ :: p.heap } sizeofLargeNode
            answers.page
          simp only [hreuse, Option.map_some, Option.isSome_none, Bool.false_eq_true, ↓reduceIte,
            Option.toList_some, List.map_cons, List.map_nil, List.append_assoc,
            List.singleton_append] at hheap ⊢
          rw [← hheap]
          split
          · have hmem : (⟨a, size⟩ : Extent) ∈ (Pool.mallocSmall
                { p with heap := ⟨a, size⟩ :: p.heap } sizeofLargeNode answers.page).2.heap := by
              rw [hheap]
              exact List.mem_append_right _ List.mem_cons_self
            obtain ⟨s, -, -, hok⟩ := Ledger.release_found (l := ⟨_, []⟩) hmem hpos
            rw [Ledger.releaseAll, hok]
            rfl
          · rfl
        · simp only [hreuse, Option.map_some, Option.isSome_some, ↓reduceIte]
          rfl
    · rw [if_neg hlarge, if_neg hlarge, if_neg hlarge, if_neg hlarge, List.append_nil]
      have hheap := mallocSmall_heap p size answers.page
      rw [hheap]
      rfl

section Operations

variable {p : Pool} {small large : List Extent}

theorem resetPool_conserved (h : Layout p small large) :
    (Ledger.releaseAll ⟨p.heap, []⟩ (addresses p.largeList)).map Ledger.heap =
      .ok p.resetPool.heap := by
  obtain ⟨l, hl, hheap, -, -⟩ := releaseLarge h
  rw [hl]
  show Except.ok l.heap = _
  rw [hheap]
  rfl

theorem freeMemory_conserved (h : Layout p small large) (q : Nat) :
    (Ledger.releaseAll ⟨p.heap, []⟩
      (if (Pool.clearLarge q p.largeList).isSome then [q] else [])).map Ledger.heap =
      .ok (p.freeMemory q).heap := by
  unfold Pool.freeMemory
  cases hclear : Pool.clearLarge q p.largeList with
  | none =>
    cases hrelease : p.releaseSmall q p.small with
    | none => rfl
    | some r => rfl
  | some largeList =>
    show (Ledger.releaseAll ⟨p.heap, []⟩ [q]).map Ledger.heap = .ok (free p.heap q)
    by_cases hz : q = 0
    · rw [hz, free_null h.pages]
      rfl
    · obtain ⟨x, hx, rfl⟩ := named_of_clearLarge h hclear hz
      have hheap : x ∈ p.heap := h.pages.heap.mem_iff.mpr (List.mem_append_right _ hx)
      obtain ⟨s, -, -, hok⟩ := Ledger.release_found (l := ⟨p.heap, []⟩) hheap hz
      rw [Ledger.releaseAll, hok]
      rfl

/-- The pool knows every region of its heap, each of them once. -/
theorem known_of_layout (h : Layout p small large) :
    (p.heap.map Extent.addr).Perm (owned p) := by
  refine (h.pages.heap.map Extent.addr).trans ?_
  rw [List.map_append, List.map_map]
  exact h.listed.symm.append_left _

end Operations

theorem step_accounted {u v : Use} {c : PoolCall} (hu : Held u) (h : Use.Step u c v) :
    Accounted u c v := by
  have hv := step_held hu h
  obtain ⟨small, large, -, hl⟩ := hu
  obtain ⟨small', large', -, hl'⟩ := hv
  refine ⟨?_, known_of_layout hl'⟩
  obtain ⟨hallowed, rfl⟩ := h
  cases c with
  | malloc size answers => exact malloc_conserved hallowed
  | calloc size answers => exact malloc_conserved hallowed
  | freeMemory q => exact freeMemory_conserved hl q
  | resetPool => exact resetPool_conserved hl

/-- In a run of operations after `CreatePool`, every call gives back only regions that are
there and leaves only regions that the pool knows, and `DestroyPool` then gives each of these
back once, if and only if the pool has no page but its first. -/
theorem destroys_once_iff {page : Nat} (halign : page % MP_ALIGNMENT = 0) (hpos : 0 < page)
    {calls : List PoolCall} {u : Use} (hr : Run Use.Step (Use.create page) calls u) :
    ((∀ pre c post v w, calls = pre ++ c :: post → Run Use.Step (Use.create page) pre v →
        Use.Step v c w → Accounted v c w) ∧ DestroysOnce u.pool) ↔ u.pool.small.length = 1 := by
  obtain ⟨small, large, -, h⟩ := run_held halign hpos hr
  constructor
  · rintro ⟨-, hdestroys⟩
    by_contra hlen
    exact not_destroysOnce_of_pages h hlen hdestroys
  · intro hlen
    refine ⟨?_, destroysOnce_of_single h hlen⟩
    intro pre c post v w _ hv hstep
    exact step_accounted (run_held halign hpos hv) hstep

/-- A large region is given back before, another one and the first page by `DestroyPool`. -/
theorem single_page_destroyed :
    ∃ u, Run Use.Step (Use.create 4096)
        [.malloc 5000 ⟨some 65536, none⟩, .malloc 100 ⟨none, none⟩, .freeMemory 65536,
          .malloc 6000 ⟨some 131072, none⟩] u ∧
      u.pool.heap = [⟨131072, 6000⟩, ⟨4096, 4096⟩] ∧ DestroysOnce u.pool := by
  have hcheck : ((Use.create 4096).perform [.malloc 5000 ⟨some 65536, none⟩,
      .malloc 100 ⟨none, none⟩, .freeMemory 65536, .malloc 6000 ⟨some 131072, none⟩]).map
        (fun u => decide (u.pool.heap = [⟨131072, 6000⟩, ⟨4096, 4096⟩] ∧
          u.pool.small.length = 1)) = some true := by
    decide +kernel
  obtain ⟨u, hu, hd⟩ := Option.map_eq_some_iff.mp hcheck
  obtain ⟨hheap, hlen⟩ := of_decide_eq_true hd
  have hr := Use.run_of_perform hu
  exact ⟨u, hr, hheap, ((destroys_once_iff (by decide) (by decide) hr).mpr hlen).2⟩

/-- With a second page, `DestroyPool` reads `next_` of its node after `free`. -/
theorem second_page_read_after_free :
    ∃ u, Run Use.Step (Use.create 4096) [.malloc 4064 ⟨none, some 8192⟩] u ∧
      destroyPool u.pool = .error (.dangling ⟨8192, 32⟩) ∧ ¬DestroysOnce u.pool := by
  have hcheck : ((Use.create 4096).perform [.malloc 4064 ⟨none, some 8192⟩]).map (fun u =>
      decide ((destroyPool u.pool).map (fun _ => ()) = .error (.dangling ⟨8192, 32⟩))) =
      some true := by
    decide +kernel
  obtain ⟨u, hu, hd⟩ := Option.map_eq_some_iff.mp hcheck
  have hfault := error_of_map (of_decide_eq_true hd)
  refine ⟨u, Use.run_of_perform hu, hfault, ?_⟩
  rintro ⟨l, hok, -⟩
  rw [hfault] at hok
  cases hok

end RyanNetwork.MemoryPool.Destroy

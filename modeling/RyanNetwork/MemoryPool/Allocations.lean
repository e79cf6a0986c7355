import RyanNetwork.Lib.Ledger
import RyanNetwork.MemoryPool.Layout

/-!
# The allocations of a pool over all its operations

The heap of a pool is its pages and the regions of its live large allocations, and each
of these regions has a record. Every operation keeps this layout, except the one that
creates a page for an allocation that does not fit behind the header of the page.
-/
namespace RyanNetwork.MemoryPool

open Lib SmallNode

set_option autoImplicit false

/-- Where the records of the large regions stand. -/
def Pool.records (p : Pool) : List Extent := p.largeList.map fun n => ⟨n.addr, sizeofLargeNode⟩

/-- The regions that the records name. -/
def addresses (l : List LargeNode) : List Nat := (l.map LargeNode.address).filter (· ≠ 0)

/-- The pages of a pool with the pieces cut from them, and its other regions. -/
structure Pages (p : Pool) (items large : List Extent) : Prop where
  carved : Carved p.small items
  head : (p.small.map place).head? = some (p.addr + sizeofPool, p.addr + PAGE_SIZE)
  heap : p.heap.Perm (p.small.map region ++ large)
  apart : large.Pairwise Extent.Disjoint
  cross : ∀ x ∈ large, ∀ r ∈ p.small.map region, x.Disjoint r
  large : ∀ x ∈ large, 0 < x.addr ∧ 0 < x.size ∧ x.addr % MP_ALIGNMENT = 0

/-- The pieces are the small allocations and the records, and each large allocation has
a record. -/
structure Layout (p : Pool) (small large : List Extent) : Prop where
  pages : Pages p (small ++ p.records) large
  listed : (addresses p.largeList).Perm (large.map Extent.addr)

section Regions

variable {p : Pool} {items items' large large' : List Extent} {x : Extent}

theorem Pages.perm (h : Pages p items large) (hi : items.Perm items') (hl : large.Perm large') :
    Pages p items' large' where
  carved := h.carved.perm hi
  head := h.head
  heap := h.heap.trans (hl.append_left _)
  apart := hl.pairwise h.apart fun {_ _} => Extent.Disjoint.symm
  cross := fun y hy => h.cross y (hl.mem_iff.mpr hy)
  large := fun y hy => h.large y (hl.mem_iff.mpr hy)

theorem Pages.owned (h : Pages p items large) : ∀ b ∈ p.small, b.region ∈ p.heap := by
  intro b hb
  rw [h.heap.mem_iff]
  exact List.mem_append_left _ (List.mem_map_of_mem hb)

/-- A large region that was granted. -/
theorem Pages.grant (h : Pages p items large) (hx : Fresh p.heap x) (hsize : 0 < x.size) :
    Pages { p with heap := x :: p.heap } items (x :: large) where
  carved := h.carved
  head := h.head
  heap := (h.heap.cons x).trans List.perm_middle.symm
  apart := by
    refine List.pairwise_cons.mpr ⟨?_, h.apart⟩
    intro y hy
    exact hx.apart y (h.heap.mem_iff.mpr (List.mem_append_right _ hy))
  cross := by
    intro y hy r hr
    rcases List.mem_cons.mp hy with rfl | hy
    · exact hx.apart r (h.heap.mem_iff.mpr (List.mem_append_left _ hr))
    · exact h.cross y hy r hr
  large := by
    intro y hy
    rcases List.mem_cons.mp hy with rfl | hy
    · exact ⟨hx.pos, hsize, hx.aligned⟩
    · exact h.large y hy

/-- No other region has the address of a large one. -/
theorem Pages.distinct (h : Pages p items (x :: large)) :
    ∀ r ∈ p.small.map region ++ large, r.addr ≠ x.addr := by
  have hpos := (h.large x List.mem_cons_self).2.1
  intro r hr
  rcases List.mem_append.mp hr with hr | hr
  · have hsize : 0 < r.size := by
      obtain ⟨b, -, rfl⟩ := List.mem_map.mp hr
      show 0 < PAGE_SIZE
      decide
    exact ((h.cross x List.mem_cons_self r hr).addr_ne hpos hsize).symm
  · have hd := (List.pairwise_cons.mp h.apart).1 r hr
    exact (hd.addr_ne hpos (h.large r (List.mem_cons_of_mem _ hr)).2.1).symm

/-- A large region that is freed. -/
theorem Pages.free (h : Pages p items (x :: large)) :
    Pages { p with heap := MemoryPool.free p.heap x.addr } items large where
  carved := h.carved
  head := h.head
  heap := Extent.eraseP_perm (h.heap.trans List.perm_middle) h.distinct
  apart := (List.pairwise_cons.mp h.apart).2
  cross := fun y hy => h.cross y (List.mem_cons_of_mem _ hy)
  large := fun y hy => h.large y (List.mem_cons_of_mem _ hy)

/-- A small allocation, possibly on a new page. -/
theorem Pages.cut {size : Nat} {page : Option Nat} {r : Nat × Pool} (h : Pages p items large)
    (hr : Cut p size page items r) (hpage : ∀ a, page = some a → Fresh p.heap ⟨a, PAGE_SIZE⟩) :
    Pages r.2 (⟨r.1, size⟩ :: items) large := by
  obtain ⟨new, hplaces, hheap, hnew⟩ := hr.pages
  have hregions := map_region_of_place hplaces
  constructor
  · exact hr.carved
  · rw [hplaces, List.map_append, List.head?_append, h.head, hr.addr]
    rfl
  · rw [hheap, hregions, List.map_append, List.append_assoc]
    exact (h.heap.append_left _).trans (List.perm_append_comm_assoc _ _ _)
  · exact h.apart
  · intro x hx e he
    rw [hregions, List.map_append] at he
    rcases List.mem_append.mp he with he | he
    · exact h.cross x hx e he
    · obtain ⟨b, hb, rfl⟩ := List.mem_map.mp he
      obtain ⟨a, ha, hba⟩ := hnew b hb
      rw [hba]
      exact ((hpage a ha).apart x (h.heap.mem_iff.mpr (List.mem_append_right _ hx))).symm
  · exact h.large

end Regions

/-! ## Records -/

theorem reuse_cases {size addr count : Nat} {l l' : List LargeNode}
    (h : Pool.reuse size addr count l = some l') :
    ∃ pre n post, l = pre ++ n :: post ∧ n.address = 0 ∧
      l' = pre ++ { n with size := size % 2 ^ 32, address := addr } :: post := by
  induction l generalizing count l' with
  | nil => cases h
  | cons m l ih =>
    simp only [Pool.reuse] at h
    split at h
    · rename_i hz
      cases h
      exact ⟨[], m, l, rfl, hz, rfl⟩
    · split at h
      · cases h
      · obtain ⟨k, hk, rfl⟩ := Option.map_eq_some_iff.mp h
        obtain ⟨pre, n, post, rfl, hz, rfl⟩ := ih hk
        exact ⟨m :: pre, n, post, rfl, hz, rfl⟩

theorem clearLarge_cases {q : Nat} {l l' : List LargeNode} (h : Pool.clearLarge q l = some l') :
    ∃ pre n post, l = pre ++ n :: post ∧ n.address = q ∧
      l' = pre ++ { n with size := 0, address := 0 } :: post := by
  induction l generalizing l' with
  | nil => cases h
  | cons m l ih =>
    simp only [Pool.clearLarge] at h
    split at h
    · rename_i hq
      cases h
      exact ⟨[], m, l, rfl, hq, rfl⟩
    · obtain ⟨k, hk, rfl⟩ := Option.map_eq_some_iff.mp h
      obtain ⟨pre, n, post, rfl, hq, rfl⟩ := ih hk
      exact ⟨m :: pre, n, post, rfl, hq, rfl⟩

theorem clearLarge_none {q : Nat} {l : List LargeNode} (h : Pool.clearLarge q l = none) :
    ∀ n ∈ l, n.address ≠ q := by
  induction l with
  | nil => simp
  | cons m l ih =>
    simp only [Pool.clearLarge] at h
    split at h
    · cases h
    · rename_i hne
      intro n hn
      rcases List.mem_cons.mp hn with rfl | hn
      · exact hne
      · exact ih (Option.map_eq_none_iff.mp h) n hn

/-- A record that names a region. -/
theorem addresses_set (pre post : List LargeNode) {n : LargeNode} (h : n.address ≠ 0) :
    (addresses (pre ++ n :: post)).Perm (n.address :: addresses (pre ++ post)) := by
  unfold addresses
  simp only [List.map_append, List.map_cons, List.filter_append, List.filter_cons, h, ne_eq,
    not_false_eq_true, decide_true, ↓reduceIte]
  exact List.perm_middle

theorem addresses_unset (pre post : List LargeNode) {n : LargeNode} (h : n.address = 0) :
    addresses (pre ++ n :: post) = addresses (pre ++ post) := by
  unfold addresses
  simp only [List.map_append, List.map_cons, List.filter_append, List.filter_cons, h, ne_eq,
    not_true_eq_false, decide_false, Bool.false_eq_true, ↓reduceIte]

theorem addresses_cons (n : LargeNode) (ns : List LargeNode) :
    addresses (n :: ns) = if n.address = 0 then addresses ns else n.address :: addresses ns := by
  unfold addresses
  by_cases hz : n.address = 0
  · simp [hz]
  · simp [hz]

/-! ## Operations -/

/-- What `posix_memalign` may answer in a call of `malloc`. -/
structure Granted (heap : List Extent) (size : Nat) (answers : Answers) : Prop where
  large : ∀ a, answers.large = some a → PAGE_SIZE - sizeofSmallNode < size →
    Fresh heap ⟨a, size⟩
  page : ∀ a, answers.page = some a → Fresh heap ⟨a, PAGE_SIZE⟩
  apart : ∀ a b, answers.large = some a → answers.page = some b →
    PAGE_SIZE - sizeofSmallNode < size → Extent.Disjoint ⟨b, PAGE_SIZE⟩ ⟨a, size⟩

/-- An allocation was handed out, or none was and the layout is the old one. -/
def Handed (small large : List Extent) (size : Nat) (r : Nat × Pool) : Prop :=
  (r.1 = 0 ∧ Layout r.2 small large) ∨
    0 < r.1 ∧ (Layout r.2 (⟨r.1, size⟩ :: small) large ∨ Layout r.2 small (⟨r.1, size⟩ :: large))

section Operations

variable {p : Pool} {items small large : List Extent} {size : Nat} {answers : Answers}

theorem mallocSmall_handed (h : Layout p small large) (hsize : 0 < size)
    (hroom : size ≤ PAGE_SIZE - sizeofSmallNode) (hg : Granted p.heap size answers) :
    Handed small large size (p.mallocSmall size answers.page) := by
  rcases mallocSmall_cut h.pages.carved h.pages.owned hsize hroom hg.page with hfail | hcut
  · rw [hfail]
    exact Or.inl ⟨rfl, h⟩
  · have hpages := h.pages.cut hcut hg.page
    have hrecords : (p.mallocSmall size answers.page).2.records = p.records := by
      unfold Pool.records
      rw [hcut.largeList]
    refine Or.inr ⟨hcut.nonnull, Or.inl ⟨?_, ?_⟩⟩
    · rw [hrecords]
      exact hpages
    · rw [hcut.largeList]
      exact h.listed

/-- A record that names another region, or none, stays where it is. -/
theorem setRecord_pages {q : Pool} {pre post : List LargeNode} {n : LargeNode}
    (h : Pages q (small ++ q.records) large) (hlist : q.largeList = pre ++ n :: post)
    (size address : Nat) :
    Pages { q with largeList := pre ++ { n with size := size, address := address } :: post }
      (small ++ Pool.records { q with
        largeList := pre ++ { n with size := size, address := address } :: post }) large := by
  have hrecords : Pool.records { q with
      largeList := pre ++ { n with size := size, address := address } :: post } = q.records := by
    unfold Pool.records
    rw [hlist]
    simp
  rw [hrecords]
  exact ⟨h.carved, h.head, h.heap, h.apart, h.cross, h.large⟩

/-- A record without a region takes the new one. -/
theorem reuse_layout {a : Nat} {largeList : List LargeNode} (h : Layout p small large)
    (hreuse : Pool.reuse size a 0 p.largeList = some largeList)
    (hfresh : Fresh p.heap ⟨a, size⟩) (hsize : 0 < size) :
    Layout { p with heap := ⟨a, size⟩ :: p.heap, largeList := largeList } small
      (⟨a, size⟩ :: large) := by
  obtain ⟨pre, n, post, hlist, hz, rfl⟩ := reuse_cases hreuse
  have hgrant := h.pages.grant hfresh hsize
  have hpos : a ≠ 0 := Nat.ne_of_gt hfresh.pos
  constructor
  · exact setRecord_pages hgrant hlist _ _
  · have hlisted := h.listed
    rw [hlist, addresses_unset pre post hz] at hlisted
    refine (addresses_set pre post (n := { n with size := size % 2 ^ 32, address := a })
      hpos).trans ?_
    exact hlisted.cons a

/-- A new record is cut from a page. -/
theorem record_layout {a : Nat} {page : Option Nat} {r : Nat × Pool} (h : Layout p small large)
    (hfresh : Fresh p.heap ⟨a, size⟩) (hsize : 0 < size)
    (hcut : Cut { p with heap := ⟨a, size⟩ :: p.heap } sizeofLargeNode page
      (small ++ p.records) r)
    (hpage : ∀ b, page = some b → Fresh (⟨a, size⟩ :: p.heap) ⟨b, PAGE_SIZE⟩) (n : Nat) :
    Layout { r.2 with largeList := ⟨r.1, a, n⟩ :: r.2.largeList } small
      (⟨a, size⟩ :: large) := by
  have hpages := (h.pages.grant hfresh hsize).cut hcut hpage
  have hlist : r.2.largeList = p.largeList := hcut.largeList
  have hpos : a ≠ 0 := Nat.ne_of_gt hfresh.pos
  constructor
  · have hperm : (⟨r.1, sizeofLargeNode⟩ :: (small ++ p.records)).Perm
        (small ++ Pool.records { r.2 with largeList := ⟨r.1, a, n⟩ :: r.2.largeList }) := by
      have hrecords : Pool.records { r.2 with largeList := ⟨r.1, a, n⟩ :: r.2.largeList } =
          ⟨r.1, sizeofLargeNode⟩ :: p.records := by
        unfold Pool.records
        rw [hlist]
        rfl
      rw [hrecords]
      exact List.perm_middle.symm
    have hp := hpages.perm hperm (List.Perm.refl _)
    exact ⟨hp.carved, hp.head, hp.heap, hp.apart, hp.cross, hp.large⟩
  · rw [hlist]
    exact (addresses_set [] p.largeList (n := ⟨r.1, a, n⟩) hpos).trans (h.listed.cons a)

theorem mallocLargeNode_handed (h : Layout p small large)
    (hlarge : PAGE_SIZE - sizeofSmallNode < size) (hg : Granted p.heap size answers) :
    Handed small large size (p.mallocLargeNode size answers) := by
  have hsize : 0 < size := by omega
  unfold Pool.mallocLargeNode posixMemalign
  cases hl : answers.large with
  | none => exact Or.inl ⟨rfl, h⟩
  | some a =>
    have hfresh := hg.large a hl hlarge
    simp only [Option.map_some]
    cases hreuse : Pool.reuse size a 0 p.largeList with
    | some largeList =>
      exact Or.inr ⟨hfresh.pos, Or.inr (reuse_layout h hreuse hfresh hsize)⟩
    | none =>
      have hpage (b : Nat) (hb : answers.page = some b) :
          Fresh (⟨a, size⟩ :: p.heap) ⟨b, PAGE_SIZE⟩ := by
        obtain ⟨halign, hpos, hapart⟩ := hg.page b hb
        refine ⟨halign, hpos, ?_⟩
        intro r hr
        rcases List.mem_cons.mp hr with rfl | hr
        · exact hg.apart a b hl hb hlarge
        · exact hapart r hr
      have hgrant := h.pages.grant hfresh hsize
      rcases mallocSmall_cut hgrant.carved hgrant.owned (show 0 < sizeofLargeNode by decide)
        (by decide) hpage with hfail | hcut
      · simp only [hfail, ↓reduceIte]
        refine Or.inl ⟨rfl, ?_⟩
        have hfree : free (⟨a, size⟩ :: p.heap) a = p.heap := by
          unfold free
          rw [List.eraseP_cons_of_pos (by simp)]
        rw [hfree]
        exact h
      · simp only [Nat.ne_of_gt hcut.nonnull, ↓reduceIte]
        exact Or.inr ⟨hfresh.pos, Or.inr (record_layout h hfresh hsize hcut hpage _)⟩

theorem malloc_handed (h : Layout p small large) (hg : Granted p.heap size answers) :
    Handed small large size (p.malloc size answers) := by
  unfold Pool.malloc
  split
  · exact Or.inl ⟨rfl, h⟩
  · rename_i hz
    split
    · rename_i hlarge
      exact mallocLargeNode_handed h hlarge hg
    · rename_i hsmall
      exact mallocSmall_handed h (Nat.pos_of_ne_zero hz) (Nat.le_of_not_lt hsmall) hg

/-- A record that the search of `FreeMemory` finds names a large allocation. -/
theorem named_of_clearLarge {q : Nat} {l : List LargeNode} (h : Layout p small large)
    (hclear : Pool.clearLarge q p.largeList = some l) (hz : q ≠ 0) : ∃ x ∈ large, x.addr = q := by
  obtain ⟨pre, n, post, hlist, hn, -⟩ := clearLarge_cases hclear
  have hmem : q ∈ large.map Extent.addr := by
    rw [← h.listed.mem_iff, hlist, (addresses_set pre post (by rw [hn]; exact hz)).mem_iff, hn]
    exact List.mem_cons_self
  exact List.mem_map.mp hmem

/-- `FreeMemory` of a large allocation. -/
theorem freeMemory_large {x : Extent} (h : Layout p small (x :: large)) :
    Layout (p.freeMemory x.addr) small large := by
  have hpos := (h.pages.large x List.mem_cons_self).1
  unfold Pool.freeMemory
  cases hclear : Pool.clearLarge x.addr p.largeList with
  | none =>
    have hmem : x.addr ∈ addresses p.largeList := by
      rw [h.listed.mem_iff]
      exact List.mem_map_of_mem List.mem_cons_self
    obtain ⟨n, hn, hna⟩ := List.mem_map.mp (List.mem_filter.mp hmem).1
    exact absurd hna (clearLarge_none hclear n hn)
  | some largeList =>
    obtain ⟨pre, n, post, hlist, hq, rfl⟩ := clearLarge_cases hclear
    have hfree := h.pages.free
    constructor
    · exact setRecord_pages hfree hlist _ _
    · have hlisted := h.listed
      rw [hlist] at hlisted
      have hset := addresses_set pre post (n := n) (by rw [hq]; exact Nat.ne_of_gt hpos)
      rw [hq] at hset
      have htail := (hset.symm.trans hlisted).cons_inv
      rw [← addresses_unset pre post (n := { n with size := 0, address := 0 }) rfl] at htail
      exact htail

theorem firstFree_eq (p : Pool) (b : SmallNode) : p.firstFree b = b.addr + sizeofSmallNode := by
  unfold Pool.firstFree
  split
  · rename_i h
    rw [h]
  · rfl

/-- The node once a reference to its page is gone. -/
def Pool.released (p : Pool) (b : SmallNode) : SmallNode :=
  if (b.quote + 2 ^ 32 - 1) % 2 ^ 32 = 0 then
    { b with quote := (b.quote + 2 ^ 32 - 1) % 2 ^ 32, last := p.firstFree b, failed := 0 }
  else { b with quote := (b.quote + 2 ^ 32 - 1) % 2 ^ 32 }

theorem released_place (p : Pool) (b : SmallNode) :
    (p.released b).addr = b.addr ∧ (p.released b).end_ = b.end_ := by
  unfold Pool.released
  generalize (b.quote + 2 ^ 32 - 1) % 2 ^ 32 = quote
  split
  · exact ⟨rfl, rfl⟩
  · exact ⟨rfl, rfl⟩

/-- The search finds the first node with the address between it and its end. -/
theorem releaseSmall_found (p : Pool) {q : Nat} {pre : List SmallNode} (post : List SmallNode)
    {b : SmallNode}
    (hpre : ∀ c ∈ pre, ¬(c.addr ≤ q ∧ q ≤ c.end_)) (hb : b.addr ≤ q ∧ q ≤ b.end_) :
    ∃ empty, p.releaseSmall q (pre ++ b :: post) = some (pre ++ p.released b :: post, empty) := by
  induction pre with
  | nil =>
    simp only [List.nil_append, Pool.releaseSmall, if_pos hb, Pool.released]
    split
    · exact ⟨true, rfl⟩
    · exact ⟨false, rfl⟩
  | cons c pre ih =>
    obtain ⟨empty, he⟩ := ih fun d hd => hpre d (List.mem_cons_of_mem _ hd)
    refine ⟨empty, ?_⟩
    simp only [List.cons_append, Pool.releaseSmall, if_neg (hpre c List.mem_cons_self), he]
    rfl

/-- The address of a piece is not between another node and the end of its page. -/
theorem outside_page {b c : SmallNode} {x : Extent} (hb : b.Ok) (hc : c.Ok)
    (hd : b.region.Disjoint c.region) (hx : b.Inside x) :
    ¬(c.addr ≤ x.addr ∧ x.addr ≤ c.end_) := by
  obtain ⟨hbend, -, -, hbaddr⟩ := region_spec hb
  obtain ⟨hcend, -, -, hcaddr⟩ := region_spec hc
  have happart := ends_apart hb hc hd
  have hle := hx.addr_le
  have hlast := hx.le_last
  have hpos := hx.pos
  have hblast := hb.last_le
  unfold sizeofSmallNode at hle
  omega

/-- No record names a small allocation. -/
theorem clearLarge_small {x : Extent} (h : Layout p (x :: small) large) :
    Pool.clearLarge x.addr p.largeList = none := by
  obtain ⟨-, b, hb, hin⟩ := h.pages.carved.placed x List.mem_cons_self
  have hwithin := inside_within (h.pages.carved.nodes b hb) hin
  cases hc : Pool.clearLarge x.addr p.largeList with
  | none => rfl
  | some l =>
    have hxpos : x.addr ≠ 0 := by
      have hge := hin.addr_le
      unfold sizeofSmallNode at hge
      omega
    obtain ⟨y, hy, hyx⟩ := named_of_clearLarge h hc hxpos
    have hd := h.pages.cross y hy b.region (List.mem_map_of_mem hb)
    have hparts := hd.parts (a := y) ⟨le_refl _, le_refl _⟩ hwithin
    exact absurd hyx (hparts.addr_ne (h.pages.large y hy).2.1 hin.pos)

/-- The page of a piece once the piece is gone. -/
theorem carved_released {pre post : List SmallNode} {b : SmallNode} {x : Extent} (p : Pool)
    (h : Carved (pre ++ b :: post) (x :: items)) (hin : b.Inside x) :
    Carved (pre ++ p.released b :: post) items := by
  have hok := h.ok
  obtain ⟨haddr, hend⟩ := released_place p b
  have hquote : 0 < b.quote := by
    rw [h.quote b (by simp)]
    exact List.countP_pos_iff.mpr ⟨x, List.mem_cons_self, inside_holds hok hin⟩
  have hless : (b.quote + 2 ^ 32 - 1) % 2 ^ 32 = b.quote - 1 := by
    obtain ⟨hbase, -, -, hnode⟩ := region_spec hok
    have hused := hok.used
    have hle := hok.last_le
    unfold PAGE_SIZE at hbase
    omega
  refine (h.release (List.Perm.refl _) hin haddr hend ?_ ?_).2
  · unfold Pool.released
    rw [hless]
    split
    · rfl
    · rfl
  · unfold Pool.released
    rw [hless, firstFree_eq]
    split
    · rfl
    · rfl

/-- `FreeMemory` of a small allocation. -/
theorem freeMemory_small {x : Extent} (h : Layout p (x :: small) large) :
    Layout (p.freeMemory x.addr) small large := by
  have hpages := h.pages
  obtain ⟨-, b, hb, hin⟩ := hpages.carved.placed x List.mem_cons_self
  have hok := hpages.carved.nodes b hb
  obtain ⟨pre, post, hsmall⟩ := List.append_of_mem hb
  have hcarved := hpages.carved
  rw [hsmall] at hcarved
  have hpre (c : SmallNode) (hc : c ∈ pre) : ¬(c.addr ≤ x.addr ∧ x.addr ≤ c.end_) := by
    obtain ⟨hcok, hd⟩ := hcarved.others (List.mem_append_left _ hc)
    exact outside_page hok hcok hd hin
  have hheld : b.addr ≤ x.addr ∧ x.addr ≤ b.end_ := by
    have h1 := hin.addr_le
    have h2 := hin.le_last
    have h3 := hok.last_le
    omega
  obtain ⟨empty, hrelease⟩ := releaseSmall_found p post hpre hheld
  have hafter := carved_released p hcarved hin
  have hplaces : (pre ++ p.released b :: post).map place = p.small.map place := by
    rw [hsmall]
    simp only [List.map_append, List.map_cons, place, released_place]
  unfold Pool.freeMemory
  rw [clearLarge_small h, hsmall, hrelease]
  have hregions := map_region_of_place hplaces
  refine ⟨⟨hafter, ?_, ?_, hpages.apart, ?_, hpages.large⟩, h.listed⟩
  · dsimp only
    rw [hplaces]
    exact hpages.head
  · dsimp only
    rw [hregions]
    exact hpages.heap
  · dsimp only
    rw [hregions]
    exact hpages.cross

/-- The search goes past pages that do not hold the address. -/
theorem releaseSmall_missed (p : Pool) {q : Nat} {l : List SmallNode}
    (hl : ∀ b ∈ l, ¬(b.addr ≤ q ∧ q ≤ b.end_)) : p.releaseSmall q l = none := by
  induction l with
  | nil => rfl
  | cons b l ih =>
    simp only [Pool.releaseSmall, if_neg (hl b List.mem_cons_self),
      ih fun c hc => hl c (List.mem_cons_of_mem _ hc)]
    rfl

/-- `free(nullptr)` does nothing. -/
theorem free_null (h : Pages p items large) : free p.heap 0 = p.heap := by
  apply List.eraseP_of_forall_not
  intro r hr
  have hpos : 0 < r.addr := by
    rcases List.mem_append.mp (h.heap.mem_iff.mp hr) with hr | hr
    · obtain ⟨b, hb, rfl⟩ := List.mem_map.mp hr
      exact (region_spec (h.carved.nodes b hb)).2.2.1
    · exact (h.large r hr).1
  rw [decide_eq_true_eq]
  exact Nat.ne_of_gt hpos

/-- `FreeMemory` of the null pointer. -/
theorem freeMemory_null (h : Layout p small large) : Layout (p.freeMemory 0) small large := by
  unfold Pool.freeMemory
  cases hclear : Pool.clearLarge 0 p.largeList with
  | some largeList =>
    obtain ⟨pre, n, post, hlist, hq, rfl⟩ := clearLarge_cases hclear
    have hfree := free_null h.pages
    have hsame : ({ n with size := 0, address := 0 } : LargeNode).address = 0 := rfl
    dsimp only
    rw [hfree]
    constructor
    · exact setRecord_pages h.pages hlist _ _
    · dsimp only
      rw [addresses_unset pre post hsame, ← addresses_unset pre post hq, ← hlist]
      exact h.listed
  | none =>
    have hmissed (b : SmallNode) (hb : b ∈ p.small) : ¬(b.addr ≤ 0 ∧ 0 ≤ b.end_) := by
      obtain ⟨-, -, hpos, haddr⟩ := region_spec (h.pages.carved.nodes b hb)
      omega
    rw [releaseSmall_missed p hmissed]
    exact h

/-- The regions of a pool are separate. -/
theorem layout_separate (h : Layout p small large) :
    Ledger.Separate (large ++ p.small.map region) where
  disjoint := by
    refine List.pairwise_append.mpr ⟨h.pages.apart, ?_, h.pages.cross⟩
    exact List.pairwise_map.mpr h.pages.carved.apart
  real := by
    intro r hr
    rcases List.mem_append.mp hr with hr | hr
    · exact ⟨(h.pages.large r hr).1, (h.pages.large r hr).2.1⟩
    · obtain ⟨b, hb, rfl⟩ := List.mem_map.mp hr
      refine ⟨(region_spec (h.pages.carved.nodes b hb)).2.2.1, ?_⟩
      show 0 < PAGE_SIZE
      decide

/-- The regions that the records name are given back one after the other. -/
theorem freeRecords_eq (l : List LargeNode) (heap : List Extent) :
    l.foldl (fun heap large => if large.address = 0 then heap else free heap large.address) heap =
      (addresses l).foldl (fun heap addr => heap.eraseP (·.addr = addr)) heap := by
  induction l generalizing heap with
  | nil => rfl
  | cons n l ih =>
    rw [List.foldl_cons, ih, addresses_cons]
    split
    · rfl
    · rfl

/-- The addresses in the records are those of the large regions, and giving them back leaves
the pages. -/
theorem releaseLarge (h : Layout p small large) :
    ∃ l, Ledger.releaseAll ⟨p.heap, []⟩ (addresses p.largeList) = .ok l ∧
      l.heap = p.largeList.foldl (fun heap large =>
        if large.address = 0 then heap else free heap large.address) p.heap ∧
      l.heap.Perm (p.small.map region) ∧ l.freed.Perm large := by
  have hheap : p.heap.Perm (large ++ p.small.map region) :=
    h.pages.heap.trans List.perm_append_comm
  obtain ⟨l, hl, hleft, hpages, hfreed⟩ :=
    Ledger.releaseAll_perm (l := ⟨p.heap, []⟩) (layout_separate h) hheap h.listed
  rw [List.append_nil] at hfreed
  rw [← freeRecords_eq] at hleft
  exact ⟨l, hl, hleft, hpages, hfreed⟩

/-- Pages with nothing in them. -/
theorem carved_empty {l : List SmallNode} (hl : ∀ b ∈ l, b.Ok ∧ b.quote = 0)
    (hapart : l.Pairwise fun b c => b.region.Disjoint c.region) : Carved l [] := by
  constructor
  · exact fun b hb => (hl b hb).1
  · exact hapart
  · exact List.Pairwise.nil
  · intro x hx
    cases hx
  · exact fun b hb => (hl b hb).2

/-- `ResetPool` leaves the pages, with nothing in them. -/
theorem resetPool_layout (h : Layout p small large) : Layout p.resetPool [] [] := by
  obtain ⟨l, -, hfreed, hheap, -⟩ := releaseLarge h
  have hplaces : p.resetPool.small.map place = p.small.map place := by
    unfold Pool.resetPool
    rw [List.map_map]
    rfl
  have hregions := map_region_of_place hplaces
  have hcarved : Carved p.resetPool.small [] := by
    apply carved_empty
    · intro c hc
      obtain ⟨b, hb, rfl⟩ := List.mem_map.mp hc
      have hok := h.pages.carved.nodes b hb
      have hused := hok.used
      have hle := hok.last_le
      refine ⟨⟨hok.page, le_refl _, ?_⟩, rfl⟩
      show b.addr + sizeofSmallNode ≤ b.end_
      omega
    · have hapart := List.pairwise_map.mpr h.pages.carved.apart
      rw [← hregions] at hapart
      exact List.pairwise_map.mp hapart
  refine ⟨⟨hcarved, ?_, ?_, List.Pairwise.nil, by simp, by simp⟩, List.Perm.refl _⟩
  · rw [hplaces]
    exact h.pages.head
  · have hsame : p.resetPool.heap = l.heap := hfreed.symm
    rw [hregions, List.append_nil, hsame]
    exact hheap

end Operations

/-! ## Every sequence of operations -/

/-- A pool with the allocations that were handed out and not yet freed. -/
structure Use where
  pool : Pool
  live : List Extent

inductive PoolCall where
  | malloc (size : Nat) (answers : Answers)
  | calloc (size : Nat) (answers : Answers)
  | freeMemory (q : Nat)
  | resetPool

namespace Use

/-- `CreatePool` on a page that was granted. -/
def create (page : Nat) : Use := ⟨.createPool page, []⟩

def handOut (u : Use) (size : Nat) (r : Nat × Pool) : Use :=
  ⟨r.2, if r.1 = 0 then u.live else ⟨r.1, size⟩ :: u.live⟩

def after (u : Use) : PoolCall → Use
  | .malloc size answers => u.handOut size (u.pool.malloc size answers)
  | .calloc size answers => u.handOut size (u.pool.calloc size answers)
  | .freeMemory q => ⟨u.pool.freeMemory q, u.live.eraseP (·.addr = q)⟩
  | .resetPool => ⟨u.pool.resetPool, []⟩

/-- What `posix_memalign` answers is granted, and only what was returned and not yet
freed is freed. -/
def Allowed (u : Use) : PoolCall → Prop
  | .malloc size answers => Granted u.pool.heap size answers
  | .calloc size answers => Granted u.pool.heap size answers
  | .freeMemory q => q = 0 ∨ ∃ x ∈ u.live, x.addr = q
  | .resetPool => True

def Step (u : Use) (c : PoolCall) (v : Use) : Prop := u.Allowed c ∧ v = u.after c

end Use

instance (heap : List Extent) (e : Extent) : Decidable (Fresh heap e) :=
  decidable_of_iff (e.addr % MP_ALIGNMENT = 0 ∧ 0 < e.addr ∧ ∀ r ∈ heap, e.Disjoint r)
    ⟨fun ⟨h1, h2, h3⟩ => ⟨h1, h2, h3⟩, fun h => ⟨h.aligned, h.pos, h.apart⟩⟩

instance (heap : List Extent) (size : Nat) (answers : Answers) :
    Decidable (Granted heap size answers) :=
  decidable_of_iff
    ((∀ a ∈ answers.large, PAGE_SIZE - sizeofSmallNode < size → Fresh heap ⟨a, size⟩) ∧
      (∀ a ∈ answers.page, Fresh heap ⟨a, PAGE_SIZE⟩) ∧
      ∀ a ∈ answers.large, ∀ b ∈ answers.page, PAGE_SIZE - sizeofSmallNode < size →
        Extent.Disjoint ⟨b, PAGE_SIZE⟩ ⟨a, size⟩)
    ⟨fun ⟨h1, h2, h3⟩ => ⟨h1, h2, fun a b ha hb => h3 a ha b hb⟩,
      fun h => ⟨h.large, h.page, fun a ha b hb => h.apart a b ha hb⟩⟩

instance (u : Use) : DecidablePred u.Allowed
  | .malloc size answers => inferInstanceAs (Decidable (Granted u.pool.heap size answers))
  | .calloc size answers => inferInstanceAs (Decidable (Granted u.pool.heap size answers))
  | .freeMemory q => inferInstanceAs (Decidable (q = 0 ∨ ∃ x ∈ u.live, x.addr = q))
  | .resetPool => isTrue trivial

/-- Performing calls one after the other, each only where it is allowed. -/
def Use.perform (u : Use) : List PoolCall → Option Use :=
  Run.exec Use.Allowed (fun v c => (.ok (v.after c) : Except Unit Use)) u

theorem Use.run_of_perform {u v : Use} {calls : List PoolCall} (h : u.perform calls = some v) :
    Run Use.Step u calls v :=
  (Run.of_exec h).mono fun _ _ _ ⟨ha, he⟩ => ⟨ha, (Except.ok.inj he).symm⟩

/-- Live allocations are aligned, lie in one region of the pool each, and are disjoint
from each other, from the headers and from the records; the counters are right. -/
structure Sound (u : Use) : Prop where
  aligned : ∀ x ∈ u.live, x.addr % MP_ALIGNMENT = 0
  owned : ∀ x ∈ u.live, ∃ r ∈ u.pool.heap, x.Within r
  disjoint : u.live.Pairwise Extent.Disjoint
  poolHeader : ∀ x ∈ u.live, x.Disjoint ⟨u.pool.addr, sizeofPool⟩
  nodeHeaders : ∀ x ∈ u.live, ∀ b ∈ u.pool.small, x.Disjoint ⟨b.addr, sizeofSmallNode⟩
  records : ∀ x ∈ u.live, ∀ r ∈ u.pool.records, x.Disjoint r
  quote : ∀ b ∈ u.pool.small,
    b.quote = u.live.countP b.holds + u.pool.records.countP b.holds
  last_le : ∀ b ∈ u.pool.small, b.last ≤ b.end_
  room : ∀ b ∈ u.pool.small, 0 ≤ (b.end_ : Int) - mpAlignPtr b.last MP_ALIGNMENT

/-- The live allocations are the small and the large ones of a layout. -/
def Held (u : Use) : Prop :=
  ∃ small large, u.live.Perm (small ++ large) ∧ Layout u.pool small large

section Held

variable {p : Pool} {small large : List Extent}

/-- The first page begins with the `Pool` and its node. -/
theorem head_region {items : List Extent} (h : Pages p items large) :
    ∃ b rest, p.small = b :: rest ∧ b.region = ⟨p.addr, PAGE_SIZE⟩ ∧
      b.addr = p.addr + sizeofPool := by
  have hhead := h.head
  cases hs : p.small with
  | nil =>
    rw [hs] at hhead
    cases hhead
  | cons b rest =>
    rw [hs] at hhead
    obtain ⟨haddr, hend⟩ := Prod.mk.inj (Option.some.inj hhead)
    refine ⟨b, rest, rfl, ?_, haddr⟩
    show (⟨b.end_ - PAGE_SIZE, PAGE_SIZE⟩ : Extent) = _
    rw [show b.end_ = p.addr + PAGE_SIZE from hend, Nat.add_sub_cancel]

/-- A small allocation is apart from the header of every page, its own included. -/
theorem small_header {items : List Extent} (h : Pages p items large) {x : Extent}
    (hx : x ∈ items) {b : SmallNode} (hb : b ∈ p.small) :
    x.Disjoint ⟨b.region.addr, b.addr + sizeofSmallNode - b.region.addr⟩ := by
  have hok := h.carved.nodes b hb
  obtain ⟨hend, -, -, haddr⟩ := region_spec hok
  obtain ⟨pre, post, hs⟩ := List.append_of_mem hb
  have hc := h.carved
  rw [hs] at hc
  rcases hc.cases hx with hin | ⟨c, hmem, -, hw, -⟩
  · have hle := hin.addr_le
    refine Or.inr ?_
    dsimp only
    omega
  · refine (hc.others hmem).2.symm.parts hw ⟨le_refl _, ?_⟩
    show b.region.addr + (b.addr + sizeofSmallNode - b.region.addr) ≤ b.region.addr + PAGE_SIZE
    unfold sizeofPool at haddr
    unfold sizeofSmallNode PAGE_SIZE
    omega

/-- Every allocation is apart from the header of every page. -/
theorem header_disjoint (h : Layout p small large) {x : Extent} (hx : x ∈ small ++ large)
    {b : SmallNode} (hb : b ∈ p.small) :
    x.Disjoint ⟨b.region.addr, b.addr + sizeofSmallNode - b.region.addr⟩ := by
  rcases List.mem_append.mp hx with hx | hx
  · exact small_header h.pages (List.mem_append_left _ hx) hb
  · obtain ⟨-, -, -, haddr⟩ := region_spec (h.pages.carved.nodes b hb)
    refine (h.pages.cross x hx b.region (List.mem_map_of_mem hb)).parts
      ⟨le_refl _, le_refl _⟩ ⟨le_refl _, ?_⟩
    show b.region.addr + (b.addr + sizeofSmallNode - b.region.addr) ≤ b.region.addr + PAGE_SIZE
    unfold sizeofPool at haddr
    unfold sizeofSmallNode PAGE_SIZE
    omega

/-- A piece of a page is apart from every large region. -/
theorem piece_disjoint (h : Layout p small large) {x y : Extent} (hx : x ∈ small ++ p.records)
    (hy : y ∈ large) : x.Disjoint y ∧ ∃ b ∈ p.small, b.Inside x := by
  obtain ⟨-, b, hb, hin⟩ := h.pages.carved.placed x hx
  have hw := inside_within (h.pages.carved.nodes b hb) hin
  have hd := h.pages.cross y hy b.region (List.mem_map_of_mem hb)
  exact ⟨hd.symm.parts hw ⟨le_refl _, le_refl _⟩, b, hb, hin⟩

theorem held_sound {u : Use} (hu : Held u) : Sound u := by
  obtain ⟨small, large, hlive, h⟩ := hu
  have hcarved := h.pages.carved
  have hmem (x : Extent) (hx : x ∈ u.live) : x ∈ small ++ large := hlive.mem_iff.mp hx
  obtain ⟨hsmall, hrecords, hcross⟩ := List.pairwise_append.mp hcarved.disjoint
  constructor
  · intro x hx
    rcases List.mem_append.mp (hmem x hx) with hx | hx
    · exact (hcarved.placed x (List.mem_append_left _ hx)).1
    · exact (h.pages.large x hx).2.2
  · intro x hx
    rcases List.mem_append.mp (hmem x hx) with hx | hx
    · obtain ⟨-, b, hb, hin⟩ := hcarved.placed x (List.mem_append_left _ hx)
      exact ⟨b.region, h.pages.owned b hb, inside_within (hcarved.nodes b hb) hin⟩
    · exact ⟨x, h.pages.heap.mem_iff.mpr (List.mem_append_right _ hx), le_refl _, le_refl _⟩
  · refine hlive.symm.pairwise ?_ fun {_ _} => Extent.Disjoint.symm
    refine List.pairwise_append.mpr ⟨hsmall, h.pages.apart, ?_⟩
    intro x hx y hy
    exact (piece_disjoint h (List.mem_append_left _ hx) hy).1
  · intro x hx
    obtain ⟨b, rest, hs, hregion, haddr⟩ := head_region h.pages
    have hb : b ∈ u.pool.small := by
      rw [hs]
      exact List.mem_cons_self
    have hd := header_disjoint h (hmem x hx) hb
    refine hd.parts ⟨le_refl _, le_refl _⟩ ⟨?_, ?_⟩
    · rw [hregion]
    · show u.pool.addr + sizeofPool ≤ b.region.addr + (b.addr + sizeofSmallNode - b.region.addr)
      omega
  · intro x hx b hb
    obtain ⟨-, -, -, haddr⟩ := region_spec (hcarved.nodes b hb)
    refine (header_disjoint h (hmem x hx) hb).parts ⟨le_refl _, le_refl _⟩ ⟨?_, ?_⟩
    · show b.region.addr ≤ b.addr
      omega
    · show b.addr + sizeofSmallNode ≤ b.region.addr + (b.addr + sizeofSmallNode - b.region.addr)
      omega
  · intro x hx r hr
    rcases List.mem_append.mp (hmem x hx) with hx | hx
    · exact hcross x hx r hr
    · exact (piece_disjoint h (List.mem_append_right _ hr) hx).1.symm
  · intro b hb
    have hnone : large.countP b.holds = 0 := by
      rw [List.countP_eq_zero]
      intro y hy
      have hd := h.pages.cross y hy b.region (List.mem_map_of_mem hb)
      obtain ⟨hend, -, -, haddr⟩ := region_spec (hcarved.nodes b hb)
      have hpos := (h.pages.large y hy).2.1
      have hsize : b.region.size = PAGE_SIZE := rfl
      unfold Extent.Disjoint at hd
      unfold holds
      rw [decide_eq_true_eq]
      unfold sizeofPool at haddr
      omega
    rw [hcarved.quote b hb, hlive.countP_eq, List.countP_append, List.countP_append, hnone]
    rfl
  · exact fun b hb => (hcarved.nodes b hb).last_le
  · intro b hb
    have := (room (hcarved.nodes b hb)).1
    omega

theorem handOut_held {u : Use} {size : Nat} {r : Nat × Pool} (hlive : u.live.Perm (small ++ large))
    (h : Handed small large size r) : Held (u.handOut size r) := by
  rcases h with ⟨hz, hr⟩ | ⟨hpos, hr⟩
  · refine ⟨small, large, ?_, hr⟩
    show (if r.1 = 0 then u.live else _).Perm _
    rw [if_pos hz]
    exact hlive
  · have hcons : (u.handOut size r).live = ⟨r.1, size⟩ :: u.live := if_neg (Nat.ne_of_gt hpos)
    rcases hr with hr | hr
    · refine ⟨⟨r.1, size⟩ :: small, large, ?_, hr⟩
      rw [hcons]
      exact hlive.cons _
    · refine ⟨small, ⟨r.1, size⟩ :: large, ?_, hr⟩
      rw [hcons]
      exact (hlive.cons _).trans List.perm_middle.symm

/-- What is left of the live allocations when the one at its address is freed. -/
theorem erase_live {u : Use} {x : Extent} {rest : List Extent} (hu : Held u)
    (hlive : u.live.Perm (x :: rest)) : (u.live.eraseP (·.addr = x.addr)).Perm rest := by
  have hsize (y : Extent) (hy : y ∈ u.live) : 0 < y.size := by
    obtain ⟨small, large, hperm, h⟩ := hu
    rcases List.mem_append.mp (hperm.mem_iff.mp hy) with hy | hy
    · obtain ⟨-, b, -, hin⟩ := h.pages.carved.placed y (List.mem_append_left _ hy)
      exact hin.pos
    · exact (h.pages.large y hy).2.1
  have hdisj := hlive.pairwise (held_sound hu).disjoint fun {_ _} => Extent.Disjoint.symm
  apply Extent.eraseP_perm hlive
  intro r hr
  have hd := (List.pairwise_cons.mp hdisj).1 r hr
  exact (hd.addr_ne (hsize x (hlive.mem_iff.mpr List.mem_cons_self))
    (hsize r (hlive.mem_iff.mpr (List.mem_cons_of_mem _ hr)))).symm

theorem freeMemory_held {u : Use} {q : Nat} (hu : Held u)
    (hq : q = 0 ∨ ∃ x ∈ u.live, x.addr = q) : Held (u.after (.freeMemory q)) := by
  have hall := hu
  obtain ⟨small, large, hlive, h⟩ := hu
  rcases hq with rfl | ⟨x, hx, rfl⟩
  · refine ⟨small, large, ?_, freeMemory_null h⟩
    have hnone : u.live.eraseP (·.addr = 0) = u.live := by
      apply List.eraseP_of_forall_not
      intro y hy
      have hpos : 0 < y.addr := by
        rcases List.mem_append.mp (hlive.mem_iff.mp hy) with hy | hy
        · obtain ⟨-, b, -, hin⟩ := h.pages.carved.placed y (List.mem_append_left _ hy)
          have hle := hin.addr_le
          unfold sizeofSmallNode at hle
          omega
        · exact (h.pages.large y hy).1
      rw [decide_eq_true_eq]
      exact Nat.ne_of_gt hpos
    show (u.live.eraseP (·.addr = 0)).Perm _
    rw [hnone]
    exact hlive
  · rcases List.mem_append.mp (hlive.mem_iff.mp hx) with hx | hx
    · have hperm := List.perm_cons_erase hx
      have hfront : u.live.Perm (x :: (small.erase x ++ large)) :=
        hlive.trans (hperm.append_right _)
      refine ⟨small.erase x, large, erase_live hall hfront, ?_⟩
      exact freeMemory_small ⟨h.pages.perm (hperm.append_right _) (List.Perm.refl _), h.listed⟩
    · have hperm := List.perm_cons_erase hx
      have hfront : u.live.Perm (x :: (small ++ large.erase x)) :=
        (hlive.trans (hperm.append_left _)).trans List.perm_middle
      refine ⟨small, large.erase x, erase_live hall hfront, ?_⟩
      exact freeMemory_large ⟨h.pages.perm (List.Perm.refl _) hperm,
        h.listed.trans (hperm.map _)⟩

theorem step_held {u v : Use} {c : PoolCall} (hu : Held u) (h : Use.Step u c v) : Held v := by
  obtain ⟨hallowed, rfl⟩ := h
  cases c with
  | malloc size answers =>
    obtain ⟨small, large, hlive, h⟩ := hu
    exact handOut_held hlive (malloc_handed h hallowed)
  | calloc size answers =>
    obtain ⟨small, large, hlive, h⟩ := hu
    exact handOut_held hlive (malloc_handed h hallowed)
  | freeMemory q => exact freeMemory_held hu hallowed
  | resetPool =>
    obtain ⟨small, large, -, h⟩ := hu
    exact ⟨[], [], List.Perm.refl _, resetPool_layout h⟩

end Held

/-- A fresh pool has one page with nothing in it. -/
theorem create_held {page : Nat} (halign : page % MP_ALIGNMENT = 0) (hpos : 0 < page) :
    Held (Use.create page) := by
  have hcarved : Carved (Pool.createPool page).small [] := by
    apply carved_empty
    · intro b hb
      rw [List.mem_singleton.mp hb]
      refine ⟨⟨⟨page, rfl, halign, hpos, Or.inr rfl⟩, le_refl _, ?_⟩, rfl⟩
      show page + sizeofPool + sizeofSmallNode ≤ page + PAGE_SIZE
      unfold sizeofPool sizeofSmallNode PAGE_SIZE
      omega
    · exact List.pairwise_singleton _ _
  have hheap : (Pool.createPool page).heap = (Pool.createPool page).small.map region ++ [] := by
    show [⟨page, PAGE_SIZE⟩] = [(⟨page + PAGE_SIZE - PAGE_SIZE, PAGE_SIZE⟩ : Extent)]
    rw [Nat.add_sub_cancel]
  refine ⟨[], [], List.Perm.refl _, ⟨hcarved, rfl, ?_, List.Pairwise.nil, by simp, by simp⟩, ?_⟩
  · show (Pool.createPool page).heap.Perm _
    rw [hheap]
    exact List.Perm.refl _
  · exact List.Perm.refl _

theorem run_held {page : Nat} (halign : page % MP_ALIGNMENT = 0) (hpos : 0 < page)
    {calls : List PoolCall} {u : Use} (hr : Run Use.Step (Use.create page) calls u) : Held u :=
  hr.invariant (P := Held) (fun _ _ _ => step_held) (create_held halign hpos)

/-- After every sequence of operations of a pool, the live allocations are aligned, inside the
regions of the pool and disjoint from each other and from all headers and records; the counters
of the pages are right, and no page is overrun. -/
theorem pool_allocations_sound {page : Nat} (halign : page % MP_ALIGNMENT = 0) (hpos : 0 < page)
    {calls : List PoolCall} {u : Use} (hr : Run Use.Step (Use.create page) calls u) : Sound u :=
  held_sound (run_held halign hpos hr)

/-- A small and a large allocation and one that fills a new page; the first is freed. -/
theorem pool_sound_after_free : ∃ u, Run Use.Step (Use.create 4096)
      [.malloc 100 ⟨none, none⟩, .malloc 5000 ⟨some 65536, none⟩, .malloc 4064 ⟨none, some 8192⟩,
        .freeMemory 4160] u ∧
    u.live = [⟨8224, 4064⟩, ⟨65536, 5000⟩] ∧ Sound u := by
  have hlive : ((Use.create 4096).perform [.malloc 100 ⟨none, none⟩,
      .malloc 5000 ⟨some 65536, none⟩, .malloc 4064 ⟨none, some 8192⟩, .freeMemory 4160]).map
      Use.live = some [⟨8224, 4064⟩, ⟨65536, 5000⟩] := by
    decide +kernel
  obtain ⟨u, hu, hl⟩ := Option.map_eq_some_iff.mp hlive
  have hr := Use.run_of_perform hu
  exact ⟨u, hr, hl, pool_allocations_sound (by decide) (by decide) hr⟩

end RyanNetwork.MemoryPool

import RyanNetwork.MemoryPool.Allocations

/-!
# `FreeMemory` of an address that is not the pool's

The search for the page of an address compares with `<=` at both ends of a block, so the
address right behind a page belongs to that page as well. Freed there, it takes a
reference from a block that it has nothing to do with.
-/
namespace RyanNetwork.MemoryPool.Foreign

open Lib SmallNode

set_option autoImplicit false

/-- The address lies in none of the regions of the pool. -/
def Outside (p : Pool) (q : Nat) : Prop := ∀ r ∈ p.heap, ¬(r.addr ≤ q ∧ q < r.addr + r.size)

instance (p : Pool) (q : Nat) : Decidable (Outside p q) :=
  inferInstanceAs (Decidable (∀ r ∈ p.heap, _))

/-- The chain with `last_`, `quote_` and `failed_` of every block, `current_`, the regions
and the records of the live large blocks are the same. -/
structure Untouched (p p' : Pool) : Prop where
  chain : p'.small = p.small
  current : p'.current = p.current
  heap : p'.heap = p.heap
  large : p'.largeList.filter (·.address ≠ 0) = p.largeList.filter (·.address ≠ 0)

theorem Untouched.refl (p : Pool) : Untouched p p := ⟨rfl, rfl, rfl, rfl⟩

section Foreign

variable {p : Pool} {items small large : List Extent} {q : Nat}

/-- Outside the pages, the search meets a block only right behind its page. -/
theorem met_iff (h : Pages p items large) (hq : Outside p q) {b : SmallNode} (hb : b ∈ p.small) :
    b.addr ≤ q ∧ q ≤ b.end_ ↔ b.end_ = q := by
  obtain ⟨hend, -, -, haddr⟩ := region_spec (h.carved.nodes b hb)
  have hout := hq b.region (h.owned b hb)
  have hsize : b.region.size = PAGE_SIZE := rfl
  unfold PAGE_SIZE at hend hsize
  unfold sizeofPool at haddr
  omega

/-- No two pages end at the same address. -/
theorem end_ne {pre post : List SmallNode} {b c : SmallNode}
    (h : Carved (pre ++ b :: post) items) (hc : c ∈ pre ++ post) : c.end_ ≠ b.end_ := by
  obtain ⟨hcok, hd⟩ := h.others hc
  have happart := ends_apart h.ok hcok hd
  unfold PAGE_SIZE at happart
  omega

/-- The only record that a foreign address can match is one without a region. -/
theorem null_of_clearLarge (h : Layout p small large) (hq : Outside p q)
    {largeList : List LargeNode} (hclear : Pool.clearLarge q p.largeList = some largeList) :
    q = 0 := by
  by_contra hz
  obtain ⟨x, hx, hxq⟩ := named_of_clearLarge h hclear hz
  have hpos := (h.pages.large x hx).2.1
  have hout := hq x (h.pages.heap.mem_iff.mpr (List.mem_append_right _ hx))
  omega

/-- The null pointer leaves everything as it is. -/
theorem null_untouched (h : Layout p small large) : Untouched p (p.freeMemory 0) := by
  unfold Pool.freeMemory
  cases hclear : Pool.clearLarge 0 p.largeList with
  | some largeList =>
    obtain ⟨pre, n, post, hlist, hn, rfl⟩ := clearLarge_cases hclear
    refine ⟨rfl, rfl, free_null h.pages, ?_⟩
    rw [hlist]
    simp [hn]
  | none =>
    have hmissed (b : SmallNode) (hb : b ∈ p.small) : ¬(b.addr ≤ 0 ∧ 0 ≤ b.end_) := by
      obtain ⟨-, -, hpos, haddr⟩ := region_spec (h.pages.carved.nodes b hb)
      omega
    dsimp only
    rw [releaseSmall_missed p hmissed]
    exact Untouched.refl p

/-- A block that loses a reference is not the same. -/
theorem released_ne (p : Pool) {b : SmallNode} (hb : b.Ok) : p.released b ≠ b := by
  obtain ⟨hend, -, -, haddr⟩ := region_spec hb
  have hused := hb.used
  have hle := hb.last_le
  unfold PAGE_SIZE at hend
  intro he
  have hquote := congrArg SmallNode.quote he
  have hless : (p.released b).quote = (b.quote + 2 ^ 32 - 1) % 2 ^ 32 := by
    unfold Pool.released
    split
    · rfl
    · rfl
  rw [hless] at hquote
  omega

/-- Right behind a page, the address takes a reference from its block. -/
theorem touched_of_end (h : Layout p small large) (hq : Outside p q) {b : SmallNode}
    (hb : b ∈ p.small) (hend : b.end_ = q) : ¬Untouched p (p.freeMemory q) := by
  have hclear : Pool.clearLarge q p.largeList = none := by
    cases hc : Pool.clearLarge q p.largeList with
    | none => rfl
    | some largeList =>
      have hz := null_of_clearLarge h hq hc
      obtain ⟨hbase, -, hpos, -⟩ := region_spec (h.pages.carved.nodes b hb)
      omega
  obtain ⟨pre, post, hsmall⟩ := List.append_of_mem hb
  have hcarved := h.pages.carved
  rw [hsmall] at hcarved
  have hpre (c : SmallNode) (hc : c ∈ pre) : ¬(c.addr ≤ q ∧ q ≤ c.end_) := by
    rw [met_iff h.pages hq (by rw [hsmall]; exact List.mem_append_left _ hc), ← hend]
    exact end_ne hcarved (List.mem_append_left _ hc)
  obtain ⟨empty, hrelease⟩ :=
    releaseSmall_found p post hpre ((met_iff h.pages hq hb).mpr hend)
  rw [← hsmall] at hrelease
  intro hsame
  have hchain := hsame.chain
  unfold Pool.freeMemory at hchain
  rw [hclear, hrelease] at hchain
  have hpost : pre ++ p.released b :: post = pre ++ b :: post := hchain.trans hsmall
  exact released_ne p hcarved.ok (List.cons.inj (List.append_cancel_left hpost)).1

end Foreign

/-- After every sequence of operations: `FreeMemory` of an address outside all regions of
the pool leaves it as it is, if and only if the address is not right behind a page. -/
theorem foreign_free_untouched_iff {page : Nat} (halign : page % MP_ALIGNMENT = 0)
    (hpos : 0 < page) {calls : List PoolCall} {u : Use}
    (hr : Run Use.Step (Use.create page) calls u) {q : Nat} (hq : Outside u.pool q) :
    Untouched u.pool (u.pool.freeMemory q) ↔ ∀ b ∈ u.pool.small, b.end_ ≠ q := by
  obtain ⟨small, large, -, h⟩ := run_held halign hpos hr
  constructor
  · intro hsame b hb hend
    exact touched_of_end h hq hb hend hsame
  · intro hne
    have hmissed (b : SmallNode) (hb : b ∈ u.pool.small) : ¬(b.addr ≤ q ∧ q ≤ b.end_) := by
      rw [met_iff h.pages hq hb]
      exact hne b hb
    by_cases hz : q = 0
    · rw [hz]
      exact null_untouched h
    · unfold Pool.freeMemory
      cases hclear : Pool.clearLarge q u.pool.largeList with
      | some largeList => exact absurd (null_of_clearLarge h hq hclear) hz
      | none =>
        dsimp only
        rw [releaseSmall_missed u.pool hmissed]
        exact Untouched.refl _

/-- The byte before the first page, after one allocation. -/
theorem address_before_page_untouched :
    ∃ u, Run Use.Step (Use.create 4096) [.malloc 16 ⟨none, none⟩] u ∧
      Untouched u.pool (u.pool.freeMemory 4095) := by
  have hcheck : ((Use.create 4096).perform [.malloc 16 ⟨none, none⟩]).map (fun u =>
      decide (Outside u.pool 4095 ∧ ∀ b ∈ u.pool.small, b.end_ ≠ 4095)) = some true := by
    decide +kernel
  obtain ⟨u, hu, hd⟩ := Option.map_eq_some_iff.mp hcheck
  obtain ⟨hq, hne⟩ := of_decide_eq_true hd
  have hr := Use.run_of_perform hu
  exact ⟨u, hr, (foreign_free_untouched_iff (by decide) (by decide) hr hq).mpr hne⟩

/-- The address behind the only page takes the reference of the one allocation in it. The
page counts as empty, and the next allocation is handed out over the live one. -/
theorem address_behind_page_touched :
    ∃ u, Run Use.Step (Use.create 4096) [.malloc 16 ⟨none, none⟩] u ∧ Outside u.pool 8192 ∧
      u.live = [⟨4160, 16⟩] ∧ u.pool.small.map SmallNode.quote = [1] ∧
      (u.pool.freeMemory 8192).small.map SmallNode.quote = [0] ∧
      ((u.pool.freeMemory 8192).malloc 16 ⟨none, none⟩).1 = 4160 ∧
      ¬Untouched u.pool (u.pool.freeMemory 8192) := by
  have hcheck : ((Use.create 4096).perform [.malloc 16 ⟨none, none⟩]).map (fun u =>
      decide (Outside u.pool 8192 ∧ u.live = [⟨4160, 16⟩] ∧
        u.pool.small.map SmallNode.quote = [1] ∧
        (u.pool.freeMemory 8192).small.map SmallNode.quote = [0] ∧
        ((u.pool.freeMemory 8192).malloc 16 ⟨none, none⟩).1 = 4160)) = some true := by
    decide +kernel
  obtain ⟨u, hu, hd⟩ := Option.map_eq_some_iff.mp hcheck
  obtain ⟨hq, hlive, hone, hnone, hagain⟩ := of_decide_eq_true hd
  refine ⟨u, Use.run_of_perform hu, hq, hlive, hone, hnone, hagain, ?_⟩
  intro hsame
  rw [hsame.chain, hone] at hnone
  cases hnone

end RyanNetwork.MemoryPool.Foreign

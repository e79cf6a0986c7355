import RyanNetwork.MemoryPool.Model
import RyanNetwork.Lib.Runs

/-!
# Where the allocations of a pool lie

The pieces cut from the pages are the small allocations and the records of the large
regions. Every piece lies between the header of its page and `last_`, and `quote_` is
the number of pieces of the page. The header of a new page ends at an aligned address, so
the page has room for every size that `malloc` takes for small.
-/
namespace RyanNetwork.MemoryPool

open Lib

set_option autoImplicit false

/-! ## Nodes -/

namespace SmallNode

/-- The page of the node. -/
def region (b : SmallNode) : Extent := ⟨b.end_ - PAGE_SIZE, PAGE_SIZE⟩

/-- Whether the extent starts in the page, behind the beginning of the node. -/
def holds (b : SmallNode) (x : Extent) : Bool := decide (b.addr ≤ x.addr ∧ x.addr < b.end_)

/-- A node at the beginning of its page, or behind the `Pool` there. -/
structure Ok (b : SmallNode) : Prop where
  page : ∃ base, b.end_ = base + PAGE_SIZE ∧ base % MP_ALIGNMENT = 0 ∧ 0 < base ∧
    (b.addr = base ∨ b.addr = base + sizeofPool)
  used : b.addr + sizeofSmallNode + b.quote ≤ b.last
  last_le : b.last ≤ b.end_

/-- The extent lies in the part of the page that is in use. -/
structure Inside (b : SmallNode) (x : Extent) : Prop where
  addr_le : b.addr + sizeofSmallNode ≤ x.addr
  le_last : x.addr + x.size ≤ b.last
  pos : 0 < x.size

end SmallNode

open SmallNode

theorem mpAlignPtr_spec (p : Nat) : p ≤ mpAlignPtr p MP_ALIGNMENT ∧
    mpAlignPtr p MP_ALIGNMENT < p + MP_ALIGNMENT ∧ mpAlignPtr p MP_ALIGNMENT % MP_ALIGNMENT = 0 := by
  unfold mpAlignPtr MP_ALIGNMENT
  omega

theorem mpAlignPtr_le {p q : Nat} (hq : q % MP_ALIGNMENT = 0) (h : p ≤ q) :
    mpAlignPtr p MP_ALIGNMENT ≤ q := by
  unfold mpAlignPtr MP_ALIGNMENT at *
  omega

theorem mpAlignPtr_header {block : Nat} (h : block % MP_ALIGNMENT = 0) :
    mpAlignPtr (block + sizeofSmallNode) MP_ALIGNMENT = block + 32 := by
  unfold mpAlignPtr MP_ALIGNMENT sizeofSmallNode at *
  omega

section Nodes

variable {b c : SmallNode} {x y : Extent}

theorem region_spec (hb : b.Ok) : b.region.addr + PAGE_SIZE = b.end_ ∧
    b.region.addr % MP_ALIGNMENT = 0 ∧ 0 < b.region.addr ∧
    (b.addr = b.region.addr ∨ b.addr = b.region.addr + sizeofPool) := by
  obtain ⟨base, hend, halign, hpos, haddr⟩ := hb.page
  have hbase : b.region.addr = base := by
    show b.end_ - PAGE_SIZE = base
    omega
  rw [hbase]
  exact ⟨hend.symm, halign, hpos, haddr⟩

/-- Pages that are apart end at least a page from each other. -/
theorem ends_apart (hb : b.Ok) (hc : c.Ok) (hd : b.region.Disjoint c.region) :
    b.end_ + PAGE_SIZE ≤ c.end_ ∨ c.end_ + PAGE_SIZE ≤ b.end_ := by
  obtain ⟨hbend, -, -, -⟩ := region_spec hb
  obtain ⟨hcend, -, -, -⟩ := region_spec hc
  have hbs : b.region.size = PAGE_SIZE := rfl
  have hcs : c.region.size = PAGE_SIZE := rfl
  unfold Extent.Disjoint at hd
  omega

theorem end_aligned (hb : b.Ok) : b.end_ % MP_ALIGNMENT = 0 := by
  obtain ⟨hend, halign, -, -⟩ := region_spec hb
  unfold MP_ALIGNMENT PAGE_SIZE at *
  omega

theorem inside_within (hb : b.Ok) (h : b.Inside x) : x.Within b.region := by
  obtain ⟨hend, -, -, haddr⟩ := region_spec hb
  have hlast := hb.last_le
  have hle := h.addr_le
  have hin := h.le_last
  constructor
  · unfold sizeofPool at haddr
    omega
  · show x.addr + x.size ≤ b.region.addr + PAGE_SIZE
    omega

theorem inside_holds (hb : b.Ok) (h : b.Inside x) : b.holds x = true := by
  have hlast := hb.last_le
  have hle := h.addr_le
  have hin := h.le_last
  have hpos := h.pos
  unfold holds
  rw [decide_eq_true_eq]
  omega

/-- What lies in one page does not start in another. -/
theorem not_holds (hc : c.Ok) (hd : b.region.Disjoint c.region) (hx : x.Within b.region)
    (hpos : 0 < x.size) : c.holds x = false := by
  obtain ⟨hend, -, -, haddr⟩ := region_spec hc
  have h := hd.parts hx (show c.region.Within c.region from ⟨le_refl _, le_refl _⟩)
  unfold holds
  rw [decide_eq_false_iff_not]
  unfold Extent.Disjoint at h
  have hsize : c.region.size = PAGE_SIZE := rfl
  unfold sizeofPool at haddr
  omega

/-- The room that `malloc` computes is the number of bytes up to the end of the page. -/
theorem room (hb : b.Ok) : mpAlignPtr b.last MP_ALIGNMENT ≤ b.end_ ∧
    ∀ size, Pool.fits b (mpAlignPtr b.last MP_ALIGNMENT) size = true ↔
      mpAlignPtr b.last MP_ALIGNMENT + size ≤ b.end_ := by
  have hle := mpAlignPtr_le (end_aligned hb) hb.last_le
  have hge := (mpAlignPtr_spec b.last).1
  obtain ⟨hend, -, -, haddr⟩ := region_spec hb
  have hused := hb.used
  refine ⟨hle, ?_⟩
  intro size
  have hroom : SizeT.ofInt ((b.end_ : Int) - mpAlignPtr b.last MP_ALIGNMENT) =
      b.end_ - mpAlignPtr b.last MP_ALIGNMENT := by
    unfold SizeT.ofInt
    unfold PAGE_SIZE at hend
    omega
  unfold Pool.fits
  rw [hroom, decide_eq_true_eq]
  omega

end Nodes

/-! ## Pieces of pages -/

/-- The pages and the pieces cut from them. -/
structure Carved (small : List SmallNode) (items : List Extent) : Prop where
  nodes : ∀ b ∈ small, b.Ok
  apart : small.Pairwise fun b c => b.region.Disjoint c.region
  disjoint : items.Pairwise Extent.Disjoint
  placed : ∀ x ∈ items, x.addr % MP_ALIGNMENT = 0 ∧ ∃ b ∈ small, b.Inside x
  quote : ∀ b ∈ small, b.quote = items.countP b.holds

theorem Carved.perm {small : List SmallNode} {items items' : List Extent}
    (h : Carved small items) (hp : items.Perm items') : Carved small items' where
  nodes := h.nodes
  apart := h.apart
  disjoint := hp.pairwise h.disjoint fun {_ _} => Extent.Disjoint.symm
  placed := fun x hx => h.placed x (hp.mem_iff.mpr hx)
  quote := fun b hb => (h.quote b hb).trans (hp.countP_eq _)

section Updates

variable {pre post : List SmallNode} {b b' : SmallNode} {items items' : List Extent}

/-- The other pages are apart from the page of a node. -/
theorem Carved.others (h : Carved (pre ++ b :: post) items) {c : SmallNode}
    (hc : c ∈ pre ++ post) : c.Ok ∧ b.region.Disjoint c.region := by
  refine ⟨h.nodes c ?_, ?_⟩
  · rcases List.mem_append.mp hc with hc | hc
    · exact List.mem_append_left _ hc
    · exact List.mem_append_right _ (List.mem_cons_of_mem _ hc)
  · obtain ⟨-, hpost, hcross⟩ := List.pairwise_append.mp h.apart
    rcases List.mem_append.mp hc with hc | hc
    · exact (hcross c hc b List.mem_cons_self).symm
    · exact (List.pairwise_cons.mp hpost).1 c hc

theorem Carved.ok (h : Carved (pre ++ b :: post) items) : b.Ok :=
  h.nodes b (by simp)

/-- A piece lies in the page of the node, or in another page and not in this one. -/
theorem Carved.cases (h : Carved (pre ++ b :: post) items) {x : Extent} (hx : x ∈ items) :
    b.Inside x ∨ ∃ c ∈ pre ++ post, c.Inside x ∧ x.Within c.region ∧ b.holds x = false := by
  obtain ⟨-, c, hc, hin⟩ := h.placed x hx
  rw [List.mem_append, List.mem_cons] at hc
  have hother (hc : c ∈ pre ++ post) :
      ∃ c ∈ pre ++ post, c.Inside x ∧ x.Within c.region ∧ b.holds x = false := by
    obtain ⟨hok, hd⟩ := h.others hc
    have hw := inside_within hok hin
    exact ⟨c, hc, hin, hw, not_holds h.ok hd.symm hw hin.pos⟩
  rcases hc with hc | rfl | hc
  · exact Or.inr (hother (List.mem_append_left _ hc))
  · exact Or.inl hin
  · exact Or.inr (hother (List.mem_append_right _ hc))

/-- The node of one page changes, and with it the pieces of this page. -/
theorem Carved.update (h : Carved (pre ++ b :: post) items) (haddr : b'.addr = b.addr)
    (hend : b'.end_ = b.end_) (hok : b'.Ok) (hdisj : items'.Pairwise Extent.Disjoint)
    (hplaced : ∀ x ∈ items', x.addr % MP_ALIGNMENT = 0 ∧
      (b'.Inside x ∨ ∃ c ∈ pre ++ post, c.Inside x))
    (hothers : ∀ c ∈ pre ++ post, items'.countP c.holds = items.countP c.holds)
    (hquote : b'.quote = items'.countP b.holds) : Carved (pre ++ b' :: post) items' := by
  have hregion : b'.region = b.region := by
    unfold region
    rw [hend]
  have hholds : b'.holds = b.holds := by
    funext x
    unfold holds
    rw [haddr, hend]
  have hmem (c : SmallNode) (hc : c ∈ pre ++ b' :: post) : c = b' ∨ c ∈ pre ++ post := by
    rw [List.mem_append, List.mem_cons] at hc
    rw [List.mem_append]
    rcases hc with hc | hc | hc
    · exact Or.inr (Or.inl hc)
    · exact Or.inl hc
    · exact Or.inr (Or.inr hc)
  have hold (c : SmallNode) (hc : c ∈ pre ++ post) : c ∈ pre ++ b :: post ∧ c ∈ pre ++ b' :: post := by
    rw [List.mem_append] at hc
    simp only [List.mem_append, List.mem_cons]
    rcases hc with hc | hc
    · exact ⟨Or.inl hc, Or.inl hc⟩
    · exact ⟨Or.inr (Or.inr hc), Or.inr (Or.inr hc)⟩
  constructor
  · intro c hc
    rcases hmem c hc with rfl | hc
    · exact hok
    · exact (h.others hc).1
  · have hapart := List.pairwise_map.mpr h.apart
    have hsame : (pre ++ b' :: post).map region = (pre ++ b :: post).map region := by
      simp [hregion]
    rw [← hsame] at hapart
    exact List.pairwise_map.mp hapart
  · exact hdisj
  · intro x hx
    obtain ⟨halign, hin | ⟨c, hc, hin⟩⟩ := hplaced x hx
    · exact ⟨halign, b', by simp, hin⟩
    · exact ⟨halign, c, (hold c hc).2, hin⟩
  · intro c hc
    rcases hmem c hc with rfl | hc
    · rw [hholds]
      exact hquote
    · rw [hothers c hc]
      exact h.quote c (hold c hc).1

/-- A piece cut behind `last_` of a page that has room for it. -/
theorem Carved.fit (h : Carved (pre ++ b :: post) items) {size : Nat} (hsize : 0 < size)
    (hfits : Pool.fits b (mpAlignPtr b.last MP_ALIGNMENT) size = true) :
    Carved (pre ++ { b with
        quote := (b.quote + 1) % 2 ^ 32, last := mpAlignPtr b.last MP_ALIGNMENT + size } :: post)
      (⟨mpAlignPtr b.last MP_ALIGNMENT, size⟩ :: items) := by
  have hok := h.ok
  have hle := ((room hok).2 size).mp hfits
  obtain ⟨hge, -, halign⟩ := mpAlignPtr_spec b.last
  have hused := hok.used
  obtain ⟨hend, -, -, haddr⟩ := region_spec hok
  have hone : (b.quote + 1) % 2 ^ 32 = b.quote + 1 := by
    unfold PAGE_SIZE at hend
    omega
  rw [hone]
  generalize hb' : { b with quote := b.quote + 1, last := mpAlignPtr b.last MP_ALIGNMENT + size } = b'
  have hok' : b'.Ok := by
    rw [← hb']
    refine ⟨hok.page, ?_, hle⟩
    show b.addr + sizeofSmallNode + (b.quote + 1) ≤ mpAlignPtr b.last MP_ALIGNMENT + size
    omega
  have hnew : b'.Inside ⟨mpAlignPtr b.last MP_ALIGNMENT, size⟩ := by
    rw [← hb']
    constructor
    · show b.addr + sizeofSmallNode ≤ mpAlignPtr b.last MP_ALIGNMENT
      omega
    · exact le_refl _
    · exact hsize
  have hwithin : (⟨mpAlignPtr b.last MP_ALIGNMENT, size⟩ : Extent).Within b.region := by
    have hw := inside_within hok' hnew
    rw [← hb'] at hw
    exact hw
  apply h.update
  · rw [← hb']
  · rw [← hb']
  · exact hok'
  · refine List.pairwise_cons.mpr ⟨?_, h.disjoint⟩
    intro y hy
    rcases h.cases hy with hin | ⟨c, hc, hin, hw, -⟩
    · refine Or.inr ?_
      exact le_trans hin.le_last hge
    · exact (h.others hc).2.parts hwithin hw
  · intro y hy
    rcases List.mem_cons.mp hy with rfl | hy
    · exact ⟨halign, Or.inl hnew⟩
    · refine ⟨(h.placed y hy).1, ?_⟩
      rcases h.cases hy with hin | ⟨c, hc, hin, -⟩
      · refine Or.inl ⟨?_, ?_, hin.pos⟩
        · rw [← hb']
          exact hin.addr_le
        · rw [← hb']
          have hlast := hin.le_last
          show y.addr + y.size ≤ mpAlignPtr b.last MP_ALIGNMENT + size
          omega
      · exact Or.inr ⟨c, hc, hin⟩
  · intro c hc
    obtain ⟨hcok, hd⟩ := h.others hc
    rw [List.countP_cons, not_holds hcok hd hwithin hsize]
    simp
  · have hholds : b.holds ⟨mpAlignPtr b.last MP_ALIGNMENT, size⟩ = true := by
      have hh := inside_holds hok' hnew
      rw [← hb'] at hh
      exact hh
    rw [List.countP_cons, hholds, ← h.quote b (by simp), ← hb']
    rfl

/-- A page with one piece in it. -/
theorem Carved.page {small : List SmallNode} (h : Carved small items) {x : Extent} (hb : b.Ok)
    (hapart : ∀ c ∈ small, c.region.Disjoint b.region) (hin : b.Inside x)
    (halign : x.addr % MP_ALIGNMENT = 0) (hquote : b.quote = 1) :
    Carved (small ++ [b]) (x :: items) := by
  have hmem (c : SmallNode) (hc : c ∈ small ++ [b]) : c ∈ small ∨ c = b := by
    simpa using hc
  have hwithin := inside_within hb hin
  have hold (y : Extent) (hy : y ∈ items) :
      ∃ c ∈ small, c.Inside y ∧ y.Within c.region ∧ b.holds y = false := by
    obtain ⟨-, c, hc, hy⟩ := h.placed y hy
    have hw := inside_within (h.nodes c hc) hy
    exact ⟨c, hc, hy, hw, not_holds hb (hapart c hc) hw hy.pos⟩
  constructor
  · intro c hc
    rcases hmem c hc with hc | rfl
    · exact h.nodes c hc
    · exact hb
  · refine List.pairwise_append.mpr ⟨h.apart, List.pairwise_singleton _ _, ?_⟩
    intro c hc d hd
    rw [List.mem_singleton.mp hd]
    exact hapart c hc
  · refine List.pairwise_cons.mpr ⟨?_, h.disjoint⟩
    intro y hy
    obtain ⟨c, hc, -, hw, -⟩ := hold y hy
    exact (hapart c hc).symm.parts hwithin hw
  · intro y hy
    rcases List.mem_cons.mp hy with rfl | hy
    · exact ⟨halign, b, by simp, hin⟩
    · obtain ⟨c, hc, hcin, -⟩ := hold y hy
      exact ⟨(h.placed y hy).1, c, List.mem_append_left _ hc, hcin⟩
  · intro c hc
    rcases hmem c hc with hc | rfl
    · rw [List.countP_cons, not_holds (h.nodes c hc) (hapart c hc).symm hwithin hin.pos]
      exact h.quote c hc
    · have hnone : items.countP c.holds = 0 := by
        rw [List.countP_eq_zero]
        intro y hy
        obtain ⟨-, -, -, -, hno⟩ := hold y hy
        rw [hno]
        decide
      rw [List.countP_cons, inside_holds hb hin, hnone, hquote]
      rfl

/-- One piece of the page is gone, and the page starts again if it was the last. -/
theorem Carved.release (h : Carved (pre ++ b :: post) items) {x : Extent}
    (hperm : items.Perm (x :: items')) (hin : b.Inside x) (haddr : b'.addr = b.addr)
    (hend : b'.end_ = b.end_) (hquote : b'.quote = b.quote - 1)
    (hlast : b'.last = if b.quote - 1 = 0 then b.addr + sizeofSmallNode else b.last) :
    0 < b.quote ∧ Carved (pre ++ b' :: post) items' := by
  have h := h.perm hperm
  have hok := h.ok
  have hcount : b.quote = items'.countP b.holds + 1 := by
    rw [h.quote b (by simp), List.countP_cons, inside_holds hok hin]
    rfl
  have hused := hok.used
  obtain ⟨hend', -, -, haddr'⟩ := region_spec hok
  have hle := hok.last_le
  have hok' : b'.Ok := by
    constructor
    · rw [haddr, hend]
      exact hok.page
    · rw [haddr, hquote, hlast]
      split
      · omega
      · omega
    · rw [hend, hlast]
      split
      · omega
      · exact hle
  refine ⟨by omega, h.update haddr hend hok' (List.pairwise_cons.mp h.disjoint).2 ?_ ?_ ?_⟩
  · intro y hy
    refine ⟨(h.placed y (List.mem_cons_of_mem _ hy)).1, ?_⟩
    rcases h.cases (List.mem_cons_of_mem _ hy) with hyin | ⟨c, hc, hyin, -⟩
    · have hpos : 0 < items'.countP b.holds :=
        List.countP_pos_iff.mpr ⟨y, hy, inside_holds hok hyin⟩
      refine Or.inl ⟨?_, ?_, hyin.pos⟩
      · rw [haddr]
        exact hyin.addr_le
      · rw [hlast, if_neg (by omega)]
        exact hyin.le_last
    · exact Or.inr ⟨c, hc, hyin⟩
  · intro c hc
    obtain ⟨hcok, hd⟩ := h.others hc
    rw [List.countP_cons, not_holds hcok hd (inside_within hok hin) hin.pos]
    simp
  · omega

end Updates

/-- The node without its count of failures, which no piece depends on. -/
def SmallNode.layout (b : SmallNode) : SmallNode := { b with failed := 0 }

theorem layout_congr {b c : SmallNode} (h : b.layout = c.layout) :
    b.addr = c.addr ∧ b.end_ = c.end_ ∧ b.last = c.last ∧ b.quote = c.quote := by
  have he := h
  simp only [SmallNode.layout, SmallNode.mk.injEq] at he
  exact ⟨he.1, he.2.1, he.2.2.1, he.2.2.2.1⟩

theorem Carved.layout {small small' : List SmallNode} {items : List Extent}
    (h : Carved small items) (he : small'.map SmallNode.layout = small.map SmallNode.layout) :
    Carved small' items := by
  have hback (l l' : List SmallNode) (he : l'.map SmallNode.layout = l.map SmallNode.layout)
      (b : SmallNode) (hb : b ∈ l') : ∃ c ∈ l, b.layout = c.layout := by
    have hm : b.layout ∈ l.map SmallNode.layout := by
      rw [← he]
      exact List.mem_map_of_mem hb
    obtain ⟨c, hc, hcb⟩ := List.mem_map.mp hm
    exact ⟨c, hc, hcb.symm⟩
  constructor
  · intro b hb
    obtain ⟨c, hc, hbc⟩ := hback small small' he b hb
    obtain ⟨h1, h2, h3, h4⟩ := layout_congr hbc
    have hok := h.nodes c hc
    refine ⟨?_, ?_, ?_⟩
    · rw [h1, h2]
      exact hok.page
    · rw [h1, h3, h4]
      exact hok.used
    · rw [h2, h3]
      exact hok.last_le
  · have hregion (l : List SmallNode) :
        (l.map SmallNode.layout).map region = l.map region := by
      rw [List.map_map]
      rfl
    have hapart := List.pairwise_map.mpr h.apart
    rw [← hregion, ← he, hregion] at hapart
    exact List.pairwise_map.mp hapart
  · exact h.disjoint
  · intro x hx
    obtain ⟨halign, c, hc, hin⟩ := h.placed x hx
    obtain ⟨b, hb, hbc⟩ := hback small' small he.symm c hc
    obtain ⟨h1, -, h3, -⟩ := layout_congr hbc
    refine ⟨halign, b, hb, ?_, ?_, hin.pos⟩
    · rw [← h1]
      exact hin.addr_le
    · rw [← h3]
      exact hin.le_last
  · intro b hb
    obtain ⟨c, hc, hbc⟩ := hback small small' he b hb
    obtain ⟨h1, h2, -, h4⟩ := layout_congr hbc
    have hholds : b.holds = c.holds := by
      funext x
      unfold holds
      rw [h1, h2]
    rw [h4, hholds]
    exact h.quote c hc

/-! ## Small allocations -/

/-- `posix_memalign` grants aligned regions apart from those that are not freed. -/
structure Fresh (heap : List Extent) (e : Extent) : Prop where
  aligned : e.addr % MP_ALIGNMENT = 0
  pos : 0 < e.addr
  apart : ∀ r ∈ heap, e.Disjoint r

/-- The node and the end of its page. -/
def SmallNode.place (b : SmallNode) : Nat × Nat := (b.addr, b.end_)

theorem map_region_of_place {l l' : List SmallNode} (h : l'.map place = l.map place) :
    l'.map region = l.map region := by
  have hregion (l : List SmallNode) : l.map region =
      (l.map place).map fun q => (⟨q.2 - PAGE_SIZE, PAGE_SIZE⟩ : Extent) := by
    rw [List.map_map]
    rfl
  rw [hregion, hregion, h]

theorem mallocFit_cases {size addr : Nat} {l l' : List SmallNode}
    (h : Pool.mallocFit size l = some (addr, l')) :
    ∃ pre b post, l = pre ++ b :: post ∧ addr = mpAlignPtr b.last MP_ALIGNMENT ∧
      Pool.fits b addr size = true ∧
      l' = pre ++ { b with quote := (b.quote + 1) % 2 ^ 32, last := addr + size } :: post := by
  induction l generalizing l' with
  | nil => cases h
  | cons c l ih =>
    simp only [Pool.mallocFit] at h
    split at h
    · rename_i hfits
      cases h
      exact ⟨[], c, l, rfl, rfl, hfits, rfl⟩
    · obtain ⟨⟨a, m⟩, hm, he⟩ := Option.map_eq_some_iff.mp h
      dsimp only at he
      obtain ⟨rfl, rfl⟩ := Prod.mk.inj he
      obtain ⟨pre, b, post, rfl, ha, hf, rfl⟩ := ih hm
      exact ⟨c :: pre, b, post, rfl, ha, hf, rfl⟩

theorem countFailures_layout (pos current : Nat) (l : List SmallNode) :
    (Pool.countFailures pos current l).1.map SmallNode.layout = l.map SmallNode.layout := by
  induction l generalizing pos current with
  | nil => rfl
  | cons c l ih =>
    cases l with
    | nil => rfl
    | cons d l =>
      simp only [Pool.countFailures, List.map_cons]
      rw [ih]
      rfl

theorem map_place_of_layout {l l' : List SmallNode}
    (h : l'.map SmallNode.layout = l.map SmallNode.layout) : l'.map place = l.map place := by
  have hplace (l : List SmallNode) : l.map place = (l.map SmallNode.layout).map place := by
    rw [List.map_map]
    rfl
  rw [hplace l', hplace l, h]

/-- What a small allocation at `r.1` leaves behind: one more piece, and at most one more
page, the one that was granted. -/
structure Cut (p : Pool) (size : Nat) (page : Option Nat) (items : List Extent)
    (r : Nat × Pool) : Prop where
  nonnull : 0 < r.1
  carved : Carved r.2.small (⟨r.1, size⟩ :: items)
  addr : r.2.addr = p.addr
  largeList : r.2.largeList = p.largeList
  pages : ∃ new : List SmallNode, r.2.small.map place = (p.small ++ new).map place ∧
    r.2.heap = new.map region ++ p.heap ∧
    ∀ b ∈ new, ∃ a, page = some a ∧ b.region = ⟨a, PAGE_SIZE⟩

section Small

variable {p : Pool} {size : Nat} {page : Option Nat} {items : List Extent}

theorem mallocFit_cut {addr : Nat} {nodes : List SmallNode} (h : Carved p.small items)
    (hsize : 0 < size)
    (hfit : Pool.mallocFit size (p.small.drop p.current) = some (addr, nodes)) :
    Cut p size page items (addr, { p with small := p.small.take p.current ++ nodes }) := by
  obtain ⟨pre, b, post, hdrop, rfl, hfits, rfl⟩ := mallocFit_cases hfit
  have hsmall : p.small = (p.small.take p.current ++ pre) ++ b :: post := by
    rw [List.append_assoc, ← hdrop, List.take_append_drop]
  have hc := h
  rw [hsmall] at hc
  have hnew := hc.fit hsize hfits
  constructor
  · have hge := (mpAlignPtr_spec b.last).1
    have hused := hc.ok.used
    unfold sizeofSmallNode at hused
    show 0 < mpAlignPtr b.last MP_ALIGNMENT
    omega
  · rw [List.append_assoc] at hnew
    exact hnew
  · rfl
  · rfl
  · refine ⟨[], ?_, rfl, by simp⟩
    rw [List.append_nil]
    nth_rewrite 2 [hsmall]
    simp [place]

/-- A new page takes an allocation that its room suffices for. -/
theorem mallocSmallNode_cut {block : Nat} (h : Carved p.small items)
    (hown : ∀ b ∈ p.small, b.region ∈ p.heap) (hsize : 0 < size) (hroom : size ≤ PAGE_SIZE - sizeofSmallNode)
    (hpage : Fresh p.heap ⟨block, PAGE_SIZE⟩) :
    Cut p size (some block) items (p.mallocSmallNode size (some block)) := by
  obtain ⟨halign, hpos, hapart⟩ := hpage
  dsimp only at halign hpos
  have haddr := mpAlignPtr_header halign
  have hlayout : (p.small.take p.current ++ (Pool.countFailures p.current p.current
      (p.small.drop p.current)).1).map SmallNode.layout = p.small.map SmallNode.layout := by
    rw [List.map_append, countFailures_layout, ← List.map_append, List.take_append_drop]
  have hc := h.layout hlayout
  have hregion : SmallNode.region ⟨block, block + PAGE_SIZE, block + 32 + size, 1, 0⟩ =
      ⟨block, PAGE_SIZE⟩ := by
    simp [region]
  have hok : SmallNode.Ok ⟨block, block + PAGE_SIZE, block + 32 + size, 1, 0⟩ := by
    refine ⟨⟨block, rfl, halign, hpos, Or.inl rfl⟩, ?_, ?_⟩
    · show block + sizeofSmallNode + 1 ≤ block + 32 + size
      unfold sizeofSmallNode
      omega
    · show block + 32 + size ≤ block + PAGE_SIZE
      unfold PAGE_SIZE sizeofSmallNode at *
      omega
  have hin : SmallNode.Inside ⟨block, block + PAGE_SIZE, block + 32 + size, 1, 0⟩
      ⟨block + 32, size⟩ := by
    refine ⟨?_, le_refl _, hsize⟩
    show block + sizeofSmallNode ≤ block + 32
    unfold sizeofSmallNode
    omega
  unfold Pool.mallocSmallNode posixMemalign
  simp only [Option.map_some, haddr]
  constructor
  · show 0 < block + 32
    omega
  · refine hc.page hok ?_ hin ?_ rfl
    · intro c hc'
      have hplace := map_region_of_place (map_place_of_layout hlayout)
      have hmem : c.region ∈ p.small.map region := by
        rw [← hplace]
        exact List.mem_map_of_mem hc'
      obtain ⟨d, hd, hdc⟩ := List.mem_map.mp hmem
      rw [hregion, ← hdc]
      exact (hapart _ (hown d hd)).symm
    · show (block + 32) % MP_ALIGNMENT = 0
      unfold MP_ALIGNMENT at *
      omega
  · rfl
  · rfl
  · refine ⟨[⟨block, block + PAGE_SIZE, block + 32 + size, 1, 0⟩], ?_, ?_, ?_⟩
    · have hplace := map_place_of_layout hlayout
      rw [List.map_append] at hplace
      rw [List.map_append, List.map_append, hplace, ← List.map_append]
    · simp [hregion]
    · intro b hb
      rw [List.mem_singleton.mp hb]
      exact ⟨block, rfl, hregion⟩

/-- `malloc` of a small size fails without a trace, or cuts one piece. -/
theorem mallocSmall_cut (h : Carved p.small items) (hown : ∀ b ∈ p.small, b.region ∈ p.heap)
    (hsize : 0 < size) (hroom : size ≤ PAGE_SIZE - sizeofSmallNode)
    (hpage : ∀ a, page = some a → Fresh p.heap ⟨a, PAGE_SIZE⟩) :
    p.mallocSmall size page = (0, p) ∨ Cut p size page items (p.mallocSmall size page) := by
  unfold Pool.mallocSmall
  cases hfit : Pool.mallocFit size (p.small.drop p.current) with
  | some r => exact Or.inr (mallocFit_cut h hsize hfit)
  | none =>
    cases page with
    | none => exact Or.inl rfl
    | some block =>
      exact Or.inr (mallocSmallNode_cut h hown hsize hroom (hpage block rfl))

end Small

end RyanNetwork.MemoryPool

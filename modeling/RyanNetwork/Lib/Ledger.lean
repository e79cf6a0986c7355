import RyanNetwork.Lib.Extents
import RyanNetwork.Lib.Outcome

/-!
# A heap that notices wrong calls of `free`

The ledger has the regions of a heap that are in use and those that were given back.
Giving back an address where no region in use begins is a fault, and so is access to a
record outside all regions in use. The null pointer is 0; giving it back does nothing.
-/
namespace RyanNetwork.Lib

set_option autoImplicit false

structure Ledger where
  heap : List Extent
  freed : List Extent

namespace Ledger

inductive Fault where
  | notHeld (addr : Nat)
  | dangling (record : Extent)
  deriving DecidableEq, Repr

def release (l : Ledger) (addr : Nat) : Except Fault Ledger :=
  if addr = 0 then .ok l
  else match l.heap.find? (·.addr = addr) with
    | none => .error (.notHeld addr)
    | some r => .ok ⟨l.heap.eraseP (·.addr = addr), r :: l.freed⟩

def releaseAll (l : Ledger) : List Nat → Except Fault Ledger
  | [] => .ok l
  | addr :: rest => l.release addr >>= fun l => l.releaseAll rest

def access (l : Ledger) (record : Extent) : Except Fault Unit :=
  if l.heap.any (fun r => record.Within r) then .ok () else .error (.dangling record)

/-- Regions that are not empty, not at the null pointer, and disjoint. -/
structure Separate (regions : List Extent) : Prop where
  disjoint : regions.Pairwise Extent.Disjoint
  real : ∀ r ∈ regions, 0 < r.addr ∧ 0 < r.size

theorem Separate.perm {regions regions' : List Extent} (h : Separate regions)
    (hp : regions.Perm regions') : Separate regions' where
  disjoint := hp.pairwise h.disjoint fun {_ _} => Extent.Disjoint.symm
  real := fun r hr => h.real r (hp.mem_iff.mpr hr)

theorem Separate.tail {r : Extent} {rest : List Extent} (h : Separate (r :: rest)) :
    Separate rest where
  disjoint := (List.pairwise_cons.mp h.disjoint).2
  real := fun s hs => h.real s (List.mem_cons_of_mem _ hs)

/-- No other region begins where one does. -/
theorem Separate.addr_ne {r s : Extent} {rest : List Extent} (h : Separate (r :: rest))
    (hs : s ∈ rest) : s.addr ≠ r.addr := by
  have hd := (List.pairwise_cons.mp h.disjoint).1 s hs
  exact (hd.addr_ne (h.real r List.mem_cons_self).2
    (h.real s (List.mem_cons_of_mem _ hs)).2).symm

section Release

variable {l : Ledger} {r : Extent} {rest : List Extent}

theorem access_ok (hr : r ∈ l.heap) {record : Extent} (h : record.Within r) :
    l.access record = .ok () :=
  if_pos (List.any_eq_true.mpr ⟨r, hr, decide_eq_true h⟩)

/-- What a release leaves of the heap, whatever is found there. -/
theorem release_heap {l' : Ledger} {addr : Nat} (haddr : addr ≠ 0)
    (h : l.release addr = .ok l') : l'.heap = l.heap.eraseP (·.addr = addr) := by
  rw [release, if_neg haddr] at h
  split at h
  · cases h
  · cases h
    rfl

/-- An address where some region begins is given back. -/
theorem release_found (hr : r ∈ l.heap) (haddr : r.addr ≠ 0) :
    ∃ s ∈ l.heap, s.addr = r.addr ∧
      l.release r.addr = .ok ⟨l.heap.eraseP (·.addr = r.addr), s :: l.freed⟩ := by
  cases hfind : l.heap.find? (·.addr = r.addr) with
  | none =>
    have hno := List.find?_eq_none.mp hfind r hr
    simp at hno
  | some s =>
    have hs := List.find?_some (p := fun x : Extent => x.addr = r.addr) hfind
    refine ⟨s, List.mem_of_find?_eq_some hfind, of_decide_eq_true hs, ?_⟩
    rw [release, if_neg haddr, hfind]

/-- One of several separate regions is given back. -/
theorem release_perm (hsep : Separate (r :: rest)) (h : l.heap.Perm (r :: rest)) :
    l.release r.addr = .ok ⟨l.heap.eraseP (·.addr = r.addr), r :: l.freed⟩ ∧
      (l.heap.eraseP (·.addr = r.addr)).Perm rest := by
  have hpos := (hsep.real r List.mem_cons_self).1
  refine ⟨?_, Extent.eraseP_perm h fun s hs => hsep.addr_ne hs⟩
  obtain ⟨s, hs, haddr, hok⟩ :=
    release_found (h.mem_iff.mpr List.mem_cons_self) (Nat.ne_of_gt hpos)
  have hsame : s = r := by
    rcases List.mem_cons.mp (h.mem_iff.mp hs) with hsr | hsr
    · exact hsr
    · exact absurd haddr (hsep.addr_ne hsr)
  rw [hsame] at hok
  exact hok

/-- Of the addresses in a region, only the first can be given back. -/
theorem addr_of_release {l' : Ledger} {addr : Nat} (hsep : Separate (r :: rest))
    (h : l.heap.Perm (r :: rest)) (hlow : r.addr ≤ addr) (hhigh : addr < r.addr + r.size)
    (hok : l.release addr = .ok l') : addr = r.addr := by
  have hpos := (hsep.real r List.mem_cons_self).1
  rw [release, if_neg (by omega)] at hok
  split at hok
  · cases hok
  · rename_i s hfind
    have haddr := List.find?_some (p := fun x : Extent => x.addr = addr) hfind
    have hs := of_decide_eq_true haddr
    rcases List.mem_cons.mp (h.mem_iff.mp (List.mem_of_find?_eq_some hfind)) with hsr | hsr
    · rw [← hs, hsr]
    · have hd := (List.pairwise_cons.mp hsep.disjoint).1 s hsr
      have hsize := (hsep.real s (List.mem_cons_of_mem _ hsr)).2
      unfold Extent.Disjoint at hd
      omega

/-- A record in a region that was given back is out of reach. -/
theorem dangling_of_release (hsep : Separate (r :: rest)) (h : l.heap.Perm rest)
    {record : Extent} (hin : record.Within r) (hsize : 0 < record.size) :
    l.access record = .error (.dangling record) := by
  refine if_neg ?_
  rw [List.any_eq_true]
  rintro ⟨s, hs, hw⟩
  have hd := (List.pairwise_cons.mp hsep.disjoint).1 s (h.mem_iff.mp hs)
  have hself := hd.parts hin (of_decide_eq_true hw)
  unfold Extent.Disjoint at hself
  omega

/-- The regions at the addresses of a list are given back, and the others stay. -/
theorem releaseAll_perm {addrs : List Nat} {kept gone : List Extent}
    (hsep : Separate (gone ++ kept)) (h : l.heap.Perm (gone ++ kept))
    (haddrs : addrs.Perm (gone.map Extent.addr)) :
    ∃ l', l.releaseAll addrs = .ok l' ∧
      l'.heap = addrs.foldl (fun heap addr => heap.eraseP (·.addr = addr)) l.heap ∧
      l'.heap.Perm kept ∧ l'.freed.Perm (gone ++ l.freed) := by
  induction addrs generalizing l gone with
  | nil =>
    have hnil : gone = [] := by
      have hlen := haddrs.length_eq
      simpa using hlen.symm
    subst hnil
    exact ⟨l, rfl, rfl, h, List.Perm.refl _⟩
  | cons a addrs ih =>
    obtain ⟨r, hr, rfl⟩ := List.mem_map.mp (haddrs.mem_iff.mp List.mem_cons_self)
    have hfront := List.perm_cons_erase hr
    have hall : (gone ++ kept).Perm (r :: (gone.erase r ++ kept)) := hfront.append_right _
    have hsep' := hsep.perm hall
    obtain ⟨hok, hleft⟩ := release_perm hsep' (h.trans hall)
    have hrest : addrs.Perm ((gone.erase r).map Extent.addr) :=
      (haddrs.trans (hfront.map Extent.addr)).cons_inv
    obtain ⟨l', hl', hheap, hkept, hfreed⟩ :=
      ih (l := ⟨l.heap.eraseP (·.addr = r.addr), r :: l.freed⟩) hsep'.tail hleft hrest
    refine ⟨l', ?_, hheap, hkept, ?_⟩
    · rw [releaseAll, hok]
      exact hl'
    · refine hfreed.trans (List.perm_middle.trans ?_)
      exact (hfront.append_right l.freed).symm

end Release

end Ledger

end RyanNetwork.Lib

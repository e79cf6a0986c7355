import Mathlib.Data.List.Chain
import Mathlib.Data.List.Nodup
import Mathlib.Logic.Function.Basic

/-!
# Circular doubly linked lists

Every node has a next and a previous one. A ring is a head with the other nodes in the order
in which `next` meets them on its way back to the head. A node taken out of its ring keeps
its own two links, so that it can be put back where it was. A loop round a ring has a loop
in the other direction that undoes it, when each turn can be undone.
-/
namespace RyanNetwork.Lib

set_option autoImplicit false

structure Links (α : Type) where
  next : α → α
  prev : α → α

namespace Links

variable {α : Type} {l l' : Links α} {x y z : α} {xs as bs : List α}

/-- `b` comes right after `a`. -/
def Joined (l : Links α) (a b : α) : Prop := l.next a = b ∧ l.prev b = a

/-- The other direction. -/
def flip (l : Links α) : Links α := ⟨l.prev, l.next⟩

structure Ring (l : Links α) (head : α) (others : List α) : Prop where
  nodup : (head :: others).Nodup
  chain : (head :: (others ++ [head])).IsChain l.Joined

/-! ## Looking at a ring -/

theorem ring_singleton (hn : l.next x = x) (hp : l.prev x = x) : l.Ring x [] :=
  ⟨List.nodup_singleton x, by simpa using ⟨hn, hp⟩⟩

theorem Ring.flip (h : l.Ring x xs) : l.flip.Ring x xs.reverse := by
  constructor
  · have hperm : (x :: xs.reverse).Perm (x :: xs) := (List.reverse_perm xs).cons x
    exact hperm.nodup_iff.mpr h.nodup
  · have hrev : (x :: (xs ++ [x])).reverse = x :: (xs.reverse ++ [x]) := by simp
    have hchain := List.isChain_reverse.mpr
      (h.chain.imp (S := fun a b => l.flip.Joined b a) fun a b hab => ⟨hab.2, hab.1⟩)
    rwa [hrev] at hchain

/-- Any node of a ring can serve as its head. -/
theorem Ring.rotate (h : l.Ring x (as ++ y :: bs)) : l.Ring y (bs ++ x :: as) := by
  constructor
  · have hfront : (bs ++ x :: as).Perm (x :: (bs ++ as)) := List.perm_middle
    have hback : (y :: (bs ++ as)).Perm (as ++ y :: bs) :=
      (List.perm_append_comm.cons y).trans List.perm_middle.symm
    have hperm : (y :: (bs ++ x :: as)).Perm (x :: (as ++ y :: bs)) :=
      (hfront.cons y).trans ((List.Perm.swap x y _).trans (hback.cons x))
    exact hperm.nodup_iff.mpr h.nodup
  · have hchain := h.chain
    rw [List.append_assoc, List.cons_append, ← List.cons_append, List.isChain_split] at hchain
    have hglue : ((y :: bs) ++ x :: (as ++ [y])).IsChain l.Joined :=
      List.isChain_split.mpr ⟨hchain.2, hchain.1⟩
    simpa using hglue

theorem Ring.next_head (h : l.Ring x xs) : l.next x = xs.headD x := by
  have hchain := h.chain
  cases xs with
  | nil => exact (List.isChain_cons_cons.mp hchain).1.1
  | cons y ys => exact (List.isChain_cons_cons.mp hchain).1.1

theorem Ring.prev_head (h : l.Ring x xs) : l.prev x = xs.getLastD x := by
  have hprev := h.flip.next_head
  rw [List.headD_eq_head?_getD, List.head?_reverse] at hprev
  rw [List.getLastD_eq_getLast?]
  exact hprev

theorem Ring.next_mid (h : l.Ring x (as ++ y :: bs)) : l.next y = bs.headD x := by
  have hnext := h.rotate.next_head
  cases bs with
  | nil => exact hnext
  | cons b bs => exact hnext

theorem Ring.prev_mid (h : l.Ring x (as ++ y :: bs)) : l.prev y = as.getLastD x := by
  have hflip := h.flip
  rw [List.reverse_append, List.reverse_cons, List.append_assoc, List.singleton_append] at hflip
  have hprev := hflip.next_mid
  rw [List.headD_eq_head?_getD, List.head?_reverse] at hprev
  rw [List.getLastD_eq_getLast?]
  exact hprev

/-- A neighbour of the head is a node of its ring. -/
theorem Ring.next_head_mem (h : l.Ring x xs) : l.next x ∈ x :: xs := by
  rw [h.next_head]
  cases xs with
  | nil => exact List.mem_cons_self
  | cons y ys => exact List.mem_cons_of_mem x List.mem_cons_self

theorem Ring.prev_head_mem (h : l.Ring x xs) : l.prev x ∈ x :: xs := by
  have hmem := h.flip.next_head_mem
  rwa [List.mem_cons, List.mem_reverse, ← List.mem_cons] at hmem

/-- Every node of a ring is the head of a ring of the same nodes. -/
theorem Ring.exists_rotation (h : l.Ring x xs) (hy : y ∈ x :: xs) :
    ∃ ys, l.Ring y ys ∧ (y :: ys).Perm (x :: xs) := by
  rcases List.mem_cons.mp hy with rfl | hy
  · exact ⟨xs, h, List.Perm.refl _⟩
  · obtain ⟨as, bs, rfl⟩ := List.append_of_mem hy
    refine ⟨bs ++ x :: as, h.rotate, ?_⟩
    have hback : (bs ++ x :: as).Perm (x :: (as ++ bs)) :=
      List.perm_middle.trans (List.perm_append_comm.cons x)
    exact (hback.cons y).trans ((List.Perm.swap x y _).trans (List.perm_middle.symm.cons x))

theorem Ring.next_mem (h : l.Ring x xs) (hy : y ∈ x :: xs) : l.next y ∈ x :: xs := by
  obtain ⟨ys, hring, hperm⟩ := h.exists_rotation hy
  exact hperm.mem_iff.mp hring.next_head_mem

theorem Ring.prev_mem (h : l.Ring x xs) (hy : y ∈ x :: xs) : l.prev y ∈ x :: xs := by
  obtain ⟨ys, hring, hperm⟩ := h.exists_rotation hy
  exact hperm.mem_iff.mp hring.prev_head_mem

theorem Ring.prev_next_head (h : l.Ring x xs) : l.prev (l.next x) = x := by
  have hchain := h.chain
  rw [h.next_head]
  cases xs with
  | nil => exact (List.isChain_cons_cons.mp hchain).1.2
  | cons y ys => exact (List.isChain_cons_cons.mp hchain).1.2

theorem Ring.prev_next (h : l.Ring x xs) (hy : y ∈ x :: xs) : l.prev (l.next y) = y := by
  obtain ⟨ys, hring, _⟩ := h.exists_rotation hy
  exact hring.prev_next_head

theorem Ring.next_prev (h : l.Ring x xs) (hy : y ∈ x :: xs) : l.next (l.prev y) = y := by
  obtain ⟨ys, hring, _⟩ := h.exists_rotation hy
  exact hring.flip.prev_next_head

/-! ## Changing links elsewhere -/

/-- A chain only depends on the next links of all its nodes but the last, and on the previous
links of all but the first. -/
theorem chain_congr (hn : ∀ a ∈ (x :: xs).dropLast, l'.next a = l.next a)
    (hp : ∀ a ∈ xs, l'.prev a = l.prev a) (h : (x :: xs).IsChain l.Joined) :
    (x :: xs).IsChain l'.Joined := by
  induction xs generalizing x with
  | nil => exact List.isChain_singleton x
  | cons y ys ih =>
    obtain ⟨hxy, hys⟩ := List.isChain_cons_cons.mp h
    refine List.isChain_cons_cons.mpr ⟨⟨?_, ?_⟩, ih ?_ ?_ hys⟩
    · rw [hn x (by simp)]
      exact hxy.1
    · rw [hp y List.mem_cons_self]
      exact hxy.2
    · intro a ha
      exact hn a (by rw [List.dropLast_cons_of_ne_nil (List.cons_ne_nil y ys)]; simp [ha])
    · intro a ha
      exact hp a (List.mem_cons_of_mem y ha)

/-- A ring whose links are untouched. -/
theorem Ring.congr (h : l.Ring x xs) (hn : ∀ a ∈ x :: xs, l'.next a = l.next a)
    (hp : ∀ a ∈ x :: xs, l'.prev a = l.prev a) : l'.Ring x xs := by
  refine ⟨h.nodup, chain_congr ?_ ?_ h.chain⟩
  · intro a ha
    have hdrop : (x :: (xs ++ [x])).dropLast = x :: xs := by
      rw [← List.cons_append, List.dropLast_concat]
    rw [hdrop] at ha
    exact hn a ha
  · intro a ha
    apply hp
    simpa [or_comm] using ha

variable [DecidableEq α]

/-- `z->next = z; z->prev = z`. -/
def isolate (l : Links α) (z : α) : Links α :=
  ⟨Function.update l.next z z, Function.update l.prev z z⟩

/-- `y->next->prev = y->prev; y->prev->next = y->next`. -/
def unlink (l : Links α) (y : α) : Links α :=
  let prev := Function.update l.prev (l.next y) (l.prev y)
  ⟨Function.update l.next (prev y) (l.next y), prev⟩

/-- `y->next->prev = y; y->prev->next = y`. -/
def relink (l : Links α) (y : α) : Links α :=
  let prev := Function.update l.prev (l.next y) y
  ⟨Function.update l.next (prev y) y, prev⟩

/-- `z->prev = x->prev; z->next = x; x->prev->next = z; x->prev = z`. -/
def insertBefore (l : Links α) (x z : α) : Links α :=
  let prev := Function.update l.prev z (l.prev x)
  let next := Function.update l.next z x
  ⟨Function.update next (prev x) z, Function.update prev x z⟩

theorem unlink_eq (l : Links α) (y : α) :
    l.unlink y = ⟨Function.update l.next (l.prev y) (l.next y),
      Function.update l.prev (l.next y) (l.prev y)⟩ := by
  have hprev : Function.update l.prev (l.next y) (l.prev y) y = l.prev y := by
    by_cases he : y = l.next y
    · rw [← he, Function.update_self]
    · rw [Function.update_of_ne he]
  unfold unlink
  dsimp only
  rw [hprev]

theorem isolate_self (l : Links α) (z : α) : (l.isolate z).Ring z [] :=
  ring_singleton (Function.update_self _ _ _) (Function.update_self _ _ _)

theorem Ring.isolate_other (h : l.Ring x xs) (hz : z ∉ x :: xs) : (l.isolate z).Ring x xs :=
  h.congr (fun _ ha => Function.update_of_ne (ne_of_mem_of_not_mem ha hz) _ _)
    fun _ ha => Function.update_of_ne (ne_of_mem_of_not_mem ha hz) _ _

/-- A node goes back to where it was taken out. -/
theorem relink_unlink (hpn : l.prev (l.next y) = y) (hnp : l.next (l.prev y) = y) :
    (l.unlink y).relink y = l := by
  rw [unlink_eq]
  unfold relink
  have hnext : Function.update l.next (l.prev y) (l.next y) y = l.next y := by
    by_cases he : y = l.prev y
    · rw [← he, Function.update_self]
    · rw [Function.update_of_ne he]
  have hprev : Function.update (Function.update l.prev (l.next y) (l.prev y)) (l.next y) y
      = l.prev := by
    rw [Function.update_idem]
    exact Function.update_eq_self_iff.mpr hpn.symm
  have hback : Function.update (Function.update l.next (l.prev y) (l.next y)) (l.prev y) y
      = l.next := by
    rw [Function.update_idem]
    exact Function.update_eq_self_iff.mpr hnp.symm
  dsimp only
  rw [hnext, hprev, hback]

theorem Ring.unlink_other (h : l.Ring x xs) (hn : l.next y ∉ x :: xs) (hp : l.prev y ∉ x :: xs) :
    (l.unlink y).Ring x xs := by
  rw [unlink_eq]
  refine h.congr ?_ ?_
  · intro a ha
    exact Function.update_of_ne (ne_of_mem_of_not_mem ha hp) _ _
  · intro a ha
    exact Function.update_of_ne (ne_of_mem_of_not_mem ha hn) _ _

/-- Taking out the head leaves a ring from the node behind it. -/
theorem Ring.unlink_head (h : l.Ring y (z :: xs)) : (l.unlink y).Ring z xs := by
  have hnodup := h.nodup
  have hnext : l.next y = z := h.next_head
  have hprev : l.prev y = (z :: xs).getLastD y := h.prev_head
  obtain ⟨front, last, hlast⟩ : ∃ front last, z :: xs = front ++ [last] :=
    ⟨(z :: xs).dropLast, (z :: xs).getLast (by simp), (List.dropLast_append_getLast _).symm⟩
  have hp : l.prev y = last := by
    rw [hprev, hlast, List.getLastD_eq_getLast?, List.getLast?_concat]
    rfl
  refine ⟨(List.nodup_cons.mp hnodup).2, ?_⟩
  have hinner : (z :: xs).IsChain (l.unlink y).Joined := by
    have hchain : ((z :: xs) ++ [y]).IsChain l.Joined := (List.isChain_cons_cons.mp h.chain).2
    refine chain_congr ?_ ?_ (List.isChain_append.mp hchain).1
    · intro a ha
      rw [unlink_eq, hp]
      refine Function.update_of_ne ?_ _ _
      rintro rfl
      rw [hlast, List.dropLast_concat] at ha
      have hnd := (List.nodup_cons.mp hnodup).2
      rw [hlast] at hnd
      exact (List.disjoint_of_nodup_append hnd) ha List.mem_cons_self
    · intro a ha
      rw [unlink_eq, hnext]
      refine Function.update_of_ne ?_ _ _
      rintro rfl
      exact (List.nodup_cons.mp (List.nodup_cons.mp hnodup).2).1 ha
  rw [← List.cons_append]
  refine List.isChain_append.mpr ⟨hinner, List.isChain_singleton z, ?_⟩
  intro a ha b hb
  rw [hlast, List.getLast?_concat] at ha
  cases ha
  cases hb
  rw [unlink_eq, hp, hnext]
  exact ⟨Function.update_self _ _ _, Function.update_self _ _ _⟩

/-- Taking out a node leaves the ring of the others. -/
theorem Ring.unlink (h : l.Ring x (as ++ y :: bs)) : (l.unlink y).Ring x (as ++ bs) := by
  have hrot := h.rotate
  cases bs with
  | nil => simpa using hrot.unlink_head
  | cons b bs => exact hrot.unlink_head.rotate

theorem Ring.insertBefore_other (h : l.Ring x xs) (hy : y ∉ x :: xs) (hz : z ∉ x :: xs)
    (hp : l.prev y ∉ x :: xs) (hyz : y ≠ z) : (l.insertBefore y z).Ring x xs := by
  have hprev : Function.update l.prev z (l.prev y) y = l.prev y := Function.update_of_ne hyz _ _
  unfold insertBefore
  refine h.congr ?_ ?_
  · intro a ha
    dsimp only
    rw [hprev, Function.update_of_ne (ne_of_mem_of_not_mem ha hp),
      Function.update_of_ne (ne_of_mem_of_not_mem ha hz)]
  · intro a ha
    dsimp only
    rw [Function.update_of_ne (ne_of_mem_of_not_mem ha hy),
      Function.update_of_ne (ne_of_mem_of_not_mem ha hz)]

/-- A node put before the head is the last of the ring. -/
theorem Ring.insertBefore (h : l.Ring x xs) (hz : z ∉ x :: xs) :
    (l.insertBefore x z).Ring x (xs ++ [z]) := by
  have hxz : x ≠ z := fun he => hz (he ▸ List.mem_cons_self)
  have hprev : Function.update l.prev z (l.prev x) x = l.prev x := Function.update_of_ne hxz _ _
  obtain ⟨front, last, hlast⟩ : ∃ front last, x :: xs = front ++ [last] :=
    ⟨(x :: xs).dropLast, (x :: xs).getLast (by simp), (List.dropLast_append_getLast _).symm⟩
  have hp : l.prev x = last := by
    have hget := congrArg List.getLast? hlast
    rw [List.getLast?_concat, List.getLast?_cons] at hget
    rw [h.prev_head, List.getLastD_eq_getLast?]
    exact Option.some.inj hget
  have hlz : last ≠ z := by
    rintro rfl
    exact hz (hlast ▸ List.mem_append_right front List.mem_cons_self)
  have hnodup : (front ++ [last]).Nodup := hlast ▸ h.nodup
  constructor
  · rw [← List.cons_append]
    exact List.nodup_append.mpr ⟨h.nodup, List.nodup_singleton z,
      fun a ha b hb he => hz (by rw [List.mem_singleton.mp hb] at he; exact he ▸ ha)⟩
  · unfold Links.insertBefore
    dsimp only
    rw [hprev, hp, List.append_assoc, ← List.cons_append]
    refine List.isChain_append.mpr ⟨?_, ?_, ?_⟩
    · have hchain := h.chain
      rw [← List.cons_append] at hchain
      refine chain_congr ?_ ?_ (List.isChain_append.mp hchain).1
      · intro a ha
        have hmem : a ∈ x :: xs := List.dropLast_subset _ ha
        rw [hlast, List.dropLast_concat] at ha
        have hal : a ≠ last := by
          rintro rfl
          exact (List.disjoint_of_nodup_append hnodup) ha List.mem_cons_self
        dsimp only
        rw [Function.update_of_ne hal, Function.update_of_ne (ne_of_mem_of_not_mem hmem hz)]
      · intro a ha
        have hax : a ≠ x := by
          rintro rfl
          exact (List.nodup_cons.mp h.nodup).1 ha
        dsimp only
        rw [Function.update_of_ne hax,
          Function.update_of_ne (ne_of_mem_of_not_mem (List.mem_cons_of_mem x ha) hz)]
    · refine List.isChain_cons_cons.mpr ⟨⟨?_, ?_⟩, List.isChain_singleton x⟩
      · dsimp only
        rw [Function.update_of_ne (Ne.symm hlz), Function.update_self]
      · dsimp only
        rw [Function.update_self]
    · intro a ha b hb
      rw [hlast, List.getLast?_concat] at ha
      cases ha
      cases hb
      refine ⟨Function.update_self _ _ _, ?_⟩
      dsimp only
      rw [Function.update_of_ne (Ne.symm hxz), Function.update_self]

end Links

/-! ## Loops round a ring -/

section Around

variable {σ α : Type} [DecidableEq α]

/-- `for (; y != stop; y = next(y)) body(y)`, the links read in the current state; `none` if
it takes `fuel` turns or more. -/
def around (next : σ → α → α) (body : σ → α → Option σ) (stop : α) : Nat → σ → α → Option σ
  | 0, _, _ => none
  | fuel + 1, s, y =>
    if y = stop then some s
    else (body s y).bind fun t => around next body stop fuel t (next t y)

variable {links : σ → Links α} {body undo : σ → α → Option σ} {stop : α} {ys : List α}
  {P : List α → σ → Prop}

/-- A loop round a ring performs its turns in the order of the ring. If every turn can be
undone, the loop that goes round the other way undoes all of them. -/
theorem around_undo (hring : ∀ done s, P done s → (links s).Ring stop ys)
    (hstep : ∀ done y rest s, ys = done ++ y :: rest → P done s →
      ∃ t, body s y = some t ∧ undo t y = some s ∧ P (done ++ [y]) t)
    {fuel : Nat} (hfuel : ys.length < fuel) {s : σ} (hs : P [] s) :
    ∃ t, around (fun s => (links s).next) body stop fuel s ((links s).next stop) = some t ∧
      around (fun s => (links s).prev) undo stop fuel t ((links t).prev stop) = some s ∧
      P ys t := by
  have hloop : ∀ (rest done : List α) (s : σ) (f : Nat), ys = done ++ rest → P done s →
      rest.length < f →
      ∃ t, around (fun s => (links s).next) body stop f s (rest.headD stop) = some t ∧ P ys t ∧
        ∀ g u, around (fun s => (links s).prev) undo stop g s (done.getLastD stop) = some u →
          around (fun s => (links s).prev) undo stop (g + rest.length) t (ys.getLastD stop)
            = some u := by
    intro rest
    induction rest with
    | nil =>
      intro done s f he hs hf
      rw [List.append_nil] at he
      subst he
      obtain ⟨f, rfl⟩ : ∃ f', f = f' + 1 := ⟨f - 1, by simp at hf; omega⟩
      exact ⟨s, by simp [around], hs, fun g u h => h⟩
    | cons y rest ih =>
      intro done s f he hs hf
      obtain ⟨f, rfl⟩ : ∃ f', f = f' + 1 := ⟨f - 1, by omega⟩
      have hne : y ≠ stop := by
        rintro rfl
        have hnodup := (hring done s hs).nodup
        rw [he] at hnodup
        exact (List.nodup_cons.mp hnodup).1 (List.mem_append_right _ List.mem_cons_self)
      obtain ⟨t, hbody, hundo, ht⟩ := hstep done y rest s he hs
      have hsplit : ys = (done ++ [y]) ++ rest := by rw [he]; simp
      have hnext : (links t).next y = rest.headD stop := by
        have hr := hring _ t ht
        rw [he] at hr
        exact hr.next_mid
      have hprev : (links s).prev y = done.getLastD stop := by
        have hr := hring _ s hs
        rw [he] at hr
        exact hr.prev_mid
      obtain ⟨u, hu, hP, hback⟩ := ih (done ++ [y]) t f hsplit ht (by simp at hf; omega)
      refine ⟨u, ?_, hP, ?_⟩
      · simp only [around, List.headD_cons, if_neg hne, hbody, Option.bind_some, hnext]
        exact hu
      · intro g v hg
        have hturn : around (fun s => (links s).prev) undo stop (g + 1) t
            ((done ++ [y]).getLastD stop) = some v := by
          rw [List.getLastD_concat]
          simp only [around, if_neg hne, hundo, Option.bind_some, hprev]
          exact hg
        have hall := hback (g + 1) v hturn
        rw [List.length_cons]
        have harith : g + (rest.length + 1) = g + 1 + rest.length := by omega
        rw [harith]
        exact hall
  obtain ⟨t, ht, hP, hback⟩ := hloop ys [] s fuel rfl hs hfuel
  have hstart : (links s).next stop = ys.headD stop := (hring [] s hs).next_head
  have hend : (links t).prev stop = ys.getLastD stop := (hring ys t hP).prev_head
  refine ⟨t, by rw [hstart]; exact ht, ?_, hP⟩
  obtain ⟨g, rfl⟩ : ∃ g, fuel = (g + 1) + ys.length := ⟨fuel - ys.length - 1, by omega⟩
  rw [hend]
  exact hback (g + 1) s (by simp [around])

end Around

end RyanNetwork.Lib

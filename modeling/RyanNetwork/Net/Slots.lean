import Mathlib.Data.List.Forall2
import Mathlib.Data.List.Nodup
import RyanNetwork.Lib.SwapErase
import RyanNetwork.Net.PollPoller

/-!
# The slots of `PollPoller`

Any family of channels with distinct descriptors on one `PollPoller`. The slots of the
array belong to the registered channels, one to each: `owners` lists them in the order of
the slots. Removing a channel takes it out of that list the way its slot is taken out of
the array, by moving the last one into the gap.
-/
namespace RyanNetwork.Slots

open Lib PollWatch

set_option autoImplicit false

/-- `update`: a channel gets new events of interest and calls `UpdateChannel`. -/
inductive SlotOp (ι : Type) where
  | update (i : ι) (events : Events)
  | remove (i : ι)

variable {ι : Type}

/-- What a slot holds for its channel. -/
def Holds (c : Channel) (pfd : PollFd) : Prop :=
  (pfd.fd = c.fd ∨ pfd.fd = negated c.fd) ∧ pfd.events = c.events

/-- `owners` are the channels of the slots, in order. -/
structure Placed (w : PollWatch ι) (owners : List ι) : Prop where
  nonneg : ∀ i, 0 ≤ (w.channels i).fd
  injective : ∀ i j, (w.channels i).fd = (w.channels j).fd → i = j
  nodup : owners.Nodup
  registered : ∀ fd i, w.poller.channels fd = some i ↔ i ∈ owners ∧ (w.channels i).fd = fd
  length_eq : w.poller.pollFds.length = owners.length
  slot : ∀ (k : Nat) (i : ι), owners[k]? = some i → (w.channels i).index = k ∧
    ∃ pfd, w.poller.pollFds[k]? = some pfd ∧ Holds (w.channels i) pfd

theorem entryOf_holds (c : Channel) : Holds c (entryOf c) := by
  unfold Holds entryOf
  split
  · exact ⟨Or.inr rfl, rfl⟩
  · exact ⟨Or.inl rfl, rfl⟩

/-- The descriptor that `RemoveChannel` reads back from a slot. -/
theorem Holds.decode {c : Channel} {pfd : PollFd} (h : Holds c pfd) (hc : 0 ≤ c.fd) :
    (if pfd.fd < 0 then negated pfd.fd else pfd.fd) = c.fd := by
  rcases h.1 with he | he
  · rw [he, if_neg (by omega)]
  · rw [he, if_pos (negated_neg hc), negated_negated]

/-- The slot of a registered channel. -/
theorem Placed.place {w : PollWatch ι} {owners : List ι} (h : Placed w owners) {fd : Int} {i : ι}
    (hi : w.poller.channels fd = some i) :
    ∃ (k : Nat) (pfd : PollFd), owners[k]? = some i ∧ (w.channels i).index = k ∧
      w.poller.pollFds[k]? = some pfd ∧ Holds (w.channels i) pfd := by
  obtain ⟨k, hk⟩ := List.mem_iff_getElem?.mp ((h.registered fd i).mp hi).1
  obtain ⟨hindex, pfd, hpfd, hholds⟩ := h.slot k i hk
  exact ⟨k, pfd, hk, hindex, hpfd, hholds⟩

/-- What is left to show after an operation, which changes no descriptor. -/
theorem Placed.of_fds {w v : PollWatch ι} {owners owners' : List ι} (h : Placed w owners)
    (hfd : ∀ j, (v.channels j).fd = (w.channels j).fd) (hnodup : owners'.Nodup)
    (hregistered : ∀ fd j, v.poller.channels fd = some j ↔ j ∈ owners' ∧ (w.channels j).fd = fd)
    (hlen : v.poller.pollFds.length = owners'.length)
    (hslot : ∀ (k : Nat) (j : ι), owners'[k]? = some j → (v.channels j).index = k ∧
      ∃ pfd, v.poller.pollFds[k]? = some pfd ∧ Holds (v.channels j) pfd) :
    Placed v owners' where
  nonneg := fun j => le_of_le_of_eq (h.nonneg j) (hfd j).symm
  injective := fun j l hjl => h.injective j l ((hfd j).symm.trans (hjl.trans (hfd l)))
  nodup := hnodup
  registered := fun fd j => by rw [hfd]; exact hregistered fd j
  length_eq := hlen
  slot := hslot

/-- `channels_` and the array have the same size, and each registered channel has an index
of its own, with its descriptor or the negated one and its events in the slot there. -/
structure Bijective (w : PollWatch ι) : Prop where
  size : ∃ fds : List Int, fds.Nodup ∧ (∀ fd, w.poller.channels fd ≠ none ↔ fd ∈ fds) ∧
    fds.length = w.poller.pollFds.length
  place : ∀ fd i, w.poller.channels fd = some i → (w.channels i).fd = fd ∧
    ∃ (k : Nat) (pfd : PollFd), (w.channels i).index = k ∧ k < w.poller.pollFds.length ∧
      w.poller.pollFds[k]? = some pfd ∧ (pfd.fd = fd ∨ pfd.fd = -fd - 1) ∧
      pfd.events = (w.channels i).events
  distinct : ∀ fd fd' i j, w.poller.channels fd = some i → w.poller.channels fd' = some j →
    (w.channels i).index = (w.channels j).index → i = j

theorem Placed.bijective {w : PollWatch ι} {owners : List ι} (h : Placed w owners) :
    Bijective w := by
  refine ⟨⟨owners.map fun i => (w.channels i).fd, ?_, ?_, ?_⟩, ?_, ?_⟩
  · exact List.Nodup.map (fun i j hij => h.injective i j hij) h.nodup
  · intro fd
    rw [Option.ne_none_iff_exists', List.mem_map]
    exact exists_congr fun i => h.registered fd i
  · rw [List.length_map, h.length_eq]
  · intro fd i hi
    obtain ⟨k, pfd, -, hindex, hpfd, hholds⟩ := h.place hi
    have hfd := ((h.registered fd i).mp hi).2
    refine ⟨hfd, k, pfd, hindex, (List.getElem?_eq_some_iff.mp hpfd).1, hpfd, ?_, hholds.2⟩
    rw [← hfd]
    exact hholds.1
  · intro fd fd' i j hi hj hij
    obtain ⟨k, -, hk, hindex, -, -⟩ := h.place hi
    obtain ⟨l, -, hl, hindex', -, -⟩ := h.place hj
    have hkl : k = l := by omega
    rw [hkl] at hk
    exact Option.some.inj (hk.symm.trans hl)

theorem placed_new (addr : ι → Nat) {fd : ι → Int} (hfd : Function.Injective fd)
    (hpos : ∀ i, 0 ≤ fd i) : Placed (PollWatch.new addr fd) [] where
  nonneg := hpos
  injective := fun i j h => hfd h
  nodup := List.nodup_nil
  registered := fun fd i => by simp [PollWatch.new]
  length_eq := rfl
  slot := fun k i h => by simp at h

/-! ## What `poll` reports -/

/-- What a call of `poll` leaves: a `revents` for each slot, which is 0 where the descriptor
is negative, and the number of slots where it is positive. -/
structure Polled (w : PollWatch ι) (revents : List Int) (numEvents : Int) : Prop where
  length_eq : revents.length = w.poller.pollFds.length
  ignored : ∀ slot ∈ w.poller.pollFds.zip revents, slot.1.fd < 0 → slot.2 = 0
  reported : numEvents = (revents.filter (0 < ·)).length

/-- The active channels are those of the slots with positive `revents`, each once and with
its own; the others keep theirs. -/
structure ExactlyActive (w : PollWatch ι) (revents : List Int) (before : ι → Int)
    (a : Active ι) : Prop where
  once : a.channels.Nodup
  active : ∀ i, i ∈ a.channels ↔ w.poller.channels (w.channels i).fd = some i ∧
    ∃ r, revents[(w.channels i).index.toNat]? = some r ∧ 0 < r
  own : ∀ i ∈ a.channels, revents[(w.channels i).index.toNat]? = some (a.revents i)
  others : ∀ i, i ∉ a.channels → a.revents i = before i

/-- An owner stands beside the slot of its index and the `revents` there. -/
theorem Placed.mem_zip {w : PollWatch ι} {owners : List ι} (h : Placed w owners)
    {revents : List Int} {slot : PollFd × Int} {i : ι}
    (hmem : (slot, i) ∈ (w.poller.pollFds.zip revents).zip owners) :
    i ∈ owners ∧ revents[(w.channels i).index.toNat]? = some slot.2 ∧
      Holds (w.channels i) slot.1 := by
  obtain ⟨k, hk⟩ := List.mem_iff_getElem?.mp hmem
  obtain ⟨hslot, howner⟩ := List.getElem?_zip_eq_some.mp hk
  obtain ⟨hpfd, hrevents⟩ := List.getElem?_zip_eq_some.mp hslot
  obtain ⟨hindex, pfd, hpfd', hholds⟩ := h.slot k i howner
  rw [hindex, Int.toNat_natCast]
  rw [Option.some.inj (hpfd'.symm.trans hpfd)] at hholds
  exact ⟨List.mem_of_getElem? howner, hrevents, hholds⟩

theorem Placed.exists_zip {w : PollWatch ι} {owners : List ι} (h : Placed w owners)
    {revents : List Int} (hlen : revents.length = w.poller.pollFds.length) {i : ι}
    (hi : i ∈ owners) : ∃ slot, (slot, i) ∈ (w.poller.pollFds.zip revents).zip owners := by
  obtain ⟨k, hk⟩ := List.mem_iff_getElem?.mp hi
  obtain ⟨-, pfd, hpfd, -⟩ := h.slot k i hk
  have hlt : k < revents.length := by
    rw [hlen]
    exact (List.getElem?_eq_some_iff.mp hpfd).1
  have hslot : (w.poller.pollFds.zip revents)[k]? = some (pfd, revents[k]) :=
    List.getElem?_zip_eq_some.mpr ⟨hpfd, List.getElem?_eq_getElem hlt⟩
  exact ⟨_, List.mem_of_getElem? (List.getElem?_zip_eq_some.mpr ⟨hslot, hk⟩)⟩

/-- The number of slots with events, counted over the slots. -/
theorem Polled.count {w : PollWatch ι} {revents : List Int} {numEvents : Int}
    (hp : Polled w revents numEvents) :
    numEvents = ((w.poller.pollFds.zip revents).filter fun slot => 0 < slot.2).length := by
  have hsnd : (w.poller.pollFds.zip revents).map Prod.snd = revents :=
    List.map_snd_zip (Nat.le_of_eq hp.length_eq)
  rw [hp.reported, ← hsnd, List.filter_map, List.length_map, hsnd]
  rfl

/-- A slot with events is not ignored, so it has the descriptor of its owner. -/
theorem Placed.matched {w : PollWatch ι} {owners : List ι} (h : Placed w owners)
    {revents : List Int} {numEvents : Int} (hp : Polled w revents numEvents) :
    List.Forall₂ (fun slot i => 0 < slot.2 → slot.1.fd = (w.channels i).fd ∧
      w.poller.channels (w.channels i).fd = some i) (w.poller.pollFds.zip revents) owners := by
  rw [List.forall₂_iff_zip]
  refine ⟨?_, ?_⟩
  · rw [List.length_zip, hp.length_eq, h.length_eq, Nat.min_self]
  · intro slot i hmem hr
    obtain ⟨hi, -, hholds⟩ := h.mem_zip hmem
    refine ⟨?_, (h.registered _ i).mpr ⟨hi, rfl⟩⟩
    rcases hholds.1 with heq | hneg
    · exact heq
    · have hzero := hp.ignored slot (List.of_mem_zip hmem).1
        (by rw [hneg]; exact negated_neg (h.nonneg i))
      omega

/-! ## One operation -/

variable [DecidableEq ι]

def withEvents (w : PollWatch ι) (i : ι) (events : Events) : PollWatch ι :=
  w.setChannel i { w.channels i with events := events }

def perform (w : PollWatch ι) : SlotOp ι → Except Fault (PollWatch ι)
  | .update i events => (withEvents w i events).updateChannel i
  | .remove i => w.removeChannel i

/-- An operation during which no assertion fails. -/
def Step (w : PollWatch ι) (op : SlotOp ι) (v : PollWatch ι) : Prop := perform w op = .ok v

section Operations

variable {w : PollWatch ι} {owners : List ι} {i : ι}

theorem withEvents_channels (w : PollWatch ι) (i : ι) (events : Events) :
    (withEvents w i events).channels i = { w.channels i with events := events } :=
  Function.update_self ..

theorem withEvents_other (w : PollWatch ι) {i j : ι} (events : Events) (hj : j ≠ i) :
    (withEvents w i events).channels j = w.channels j :=
  Function.update_of_ne hj ..

/-- The state of a channel that was just pushed, in one update. -/
theorem pushFd_withEvents (w : PollWatch ι) (i : ι) (events : Events) :
    (withEvents w i events).pushFd i =
      ⟨⟨Function.update w.poller.channels (w.channels i).fd (some i),
        w.poller.pollFds ++ [⟨(w.channels i).fd, events⟩]⟩,
        Function.update w.channels i
          { w.channels i with events := events, index := w.poller.pollFds.length }⟩ := by
  unfold pushFd
  rw [withEvents_channels]
  unfold withEvents setChannel
  dsimp only
  rw [Function.update_idem]

/-- A new channel takes a slot at the end. -/
theorem Placed.push (h : Placed w owners) (events : Events)
    (hnone : w.poller.channels (w.channels i).fd = none) :
    Placed ((withEvents w i events).pushFd i) (owners ++ [i]) := by
  have hnew : i ∉ owners := by
    intro hmem
    rw [(h.registered _ i).mpr ⟨hmem, rfl⟩] at hnone
    cases hnone
  rw [pushFd_withEvents]
  refine h.of_fds ?_ ?_ ?_ ?_ ?_
  · intro j
    dsimp only
    by_cases hj : j = i
    · rw [hj, Function.update_self]
    · rw [Function.update_of_ne hj]
  · rw [List.nodup_append]
    refine ⟨h.nodup, List.pairwise_singleton _ i, ?_⟩
    intro a ha b hb heq
    rw [List.mem_singleton.mp hb] at heq
    exact hnew (heq ▸ ha)
  · intro fd j
    dsimp only
    rw [List.mem_append, List.mem_singleton]
    by_cases hf : fd = (w.channels i).fd
    · rw [hf, Function.update_self, Option.some.injEq]
      constructor
      · rintro rfl
        exact ⟨Or.inr rfl, rfl⟩
      · rintro ⟨-, hj⟩
        exact (h.injective j i hj).symm
    · rw [Function.update_of_ne hf, h.registered]
      constructor
      · rintro ⟨hj, rfl⟩
        exact ⟨Or.inl hj, rfl⟩
      · rintro ⟨hj | hj, rfl⟩
        · exact ⟨hj, rfl⟩
        · exact absurd (by rw [hj]) hf
  · rw [List.length_append, List.length_append, h.length_eq]
    rfl
  · intro k j hk
    dsimp only
    rcases Nat.lt_or_ge k owners.length with hlt | hge
    · rw [List.getElem?_append_left hlt] at hk
      have hj : j ≠ i := fun heq => hnew (heq ▸ List.mem_of_getElem? hk)
      rw [Function.update_of_ne hj, List.getElem?_append_left (by rw [h.length_eq]; exact hlt)]
      exact h.slot k j hk
    · have hk' : k = owners.length := by
        have := (List.getElem?_eq_some_iff.mp hk).1
        rw [List.length_append, List.length_singleton] at this
        omega
      subst hk'
      rw [List.getElem?_concat_length] at hk
      cases hk
      rw [Function.update_self, ← h.length_eq, List.getElem?_concat_length]
      exact ⟨rfl, _, rfl, Or.inl rfl, rfl⟩

/-- A registered channel keeps its slot. -/
theorem Placed.set (h : Placed w owners) (events : Events) {k : Nat}
    (hk : owners[k]? = some i) :
    Placed ((withEvents w i events).setFd k (entryOf { w.channels i with events := events }))
      owners := by
  have hself := withEvents_channels w i events
  refine h.of_fds ?_ h.nodup h.registered ((List.length_set ..).trans h.length_eq) ?_
  · intro j
    show ((withEvents w i events).channels j).fd = (w.channels j).fd
    by_cases hj : j = i
    · rw [hj, hself]
    · rw [withEvents_other w events hj]
  · intro m j hm
    show ((withEvents w i events).channels j).index = m ∧ ∃ pfd,
      (w.poller.pollFds.set k (entryOf { w.channels i with events := events }))[m]? = some pfd ∧
        Holds ((withEvents w i events).channels j) pfd
    obtain ⟨hindex, pfd, hpfd, hholds⟩ := h.slot m j hm
    by_cases hj : j = i
    · subst hj
      have hmk : m = k := by
        have := (h.slot k j hk).1
        omega
      subst hmk
      have hlt := (List.getElem?_eq_some_iff.mp hpfd).1
      rw [hself, List.getElem?_set_self hlt]
      exact ⟨hindex, _, rfl, entryOf_holds _⟩
    · have hmk : k ≠ m := by
        rintro rfl
        exact hj (Option.some.inj (hm.symm.trans hk))
      rw [withEvents_other w events hj, List.getElem?_set_ne hmk]
      exact ⟨hindex, pfd, hpfd, hholds⟩

/-- `RemoveChannel` past its assertions: the last slot moves into the gap with its channel,
which is the channel removed itself if its slot is the last one. -/
theorem Placed.eraseFd_ok (h : Placed w owners) {k : Nat} (hk : owners[k]? = some i) :
    ∃ j last, owners.getLast? = some j ∧ Holds (w.channels j) last ∧
      w.eraseFd (w.channels i).fd k = .ok
        ((w.dropFd (w.channels i).fd k last).setChannel j { w.channels j with index := k }) := by
  have hlt := (List.getElem?_eq_some_iff.mp hk).1
  have hlast : owners.getLast? = some (owners[owners.length - 1]) := by
    rw [List.getLast?_eq_getElem?]
    exact List.getElem?_eq_getElem (by omega)
  generalize owners[owners.length - 1] = j at hlast
  have hj := hlast
  rw [List.getLast?_eq_getElem?] at hj
  obtain ⟨hindex, last, hpfd, hholds⟩ := h.slot _ j hj
  rw [← h.length_eq, ← List.getLast?_eq_getElem?] at hpfd
  refine ⟨j, last, hlast, hholds, ?_⟩
  unfold eraseFd
  rw [hpfd]
  dsimp only
  by_cases hend : k = w.poller.pollFds.length - 1
  · rw [if_pos hend]
    have hji : j = i := by
      rw [hend, h.length_eq, hj] at hk
      exact Option.some.inj hk
    have hsame : { w.channels j with index := (k : Int) } = w.channels j := by
      have hself := (h.slot k i hk).1
      rw [← hji] at hself
      rw [← hself]
    rw [hsame]
    unfold setChannel dropFd
    rw [Function.update_eq_self]
  · rw [if_neg hend, hholds.decode (h.nonneg j)]
    have hji : j ≠ i := by
      rintro rfl
      have hself := (h.slot k j hk).1
      rw [h.length_eq] at hend
      omega
    have hfd : (w.channels j).fd ≠ (w.channels i).fd := fun he => hji (h.injective j i he)
    rw [Function.update_of_ne hfd, (h.registered _ j).mpr ⟨List.mem_of_getElem? hj, rfl⟩]

/-- The channels left after a removal keep one slot each. -/
theorem Placed.erase (h : Placed w owners) {k : Nat} (hk : owners[k]? = some i) {j : ι}
    {last : PollFd} (hj : owners.getLast? = some j) (hholds : Holds (w.channels j) last) :
    Placed ((w.dropFd (w.channels i).fd k last).setChannel j { w.channels j with index := k })
      (swapErase owners k j) := by
  have hperm := perm_swapErase hk hj
  obtain ⟨hgone, hnodup⟩ := List.nodup_cons.mp (hperm.nodup_iff.mp h.nodup)
  have hmem (l : ι) : l ∈ owners ↔ l = i ∨ l ∈ swapErase owners k j := by
    rw [hperm.mem_iff, List.mem_cons]
  have hself : ((w.dropFd (w.channels i).fd k last).setChannel j
      { w.channels j with index := k }).channels j = { w.channels j with index := k } :=
    Function.update_self ..
  have hother (l : ι) (hl : l ≠ j) : ((w.dropFd (w.channels i).fd k last).setChannel j
      { w.channels j with index := k }).channels l = w.channels l :=
    Function.update_of_ne hl ..
  refine h.of_fds ?_ hnodup ?_ ?_ ?_
  · intro l
    by_cases hl : l = j
    · rw [hl, hself]
    · rw [hother l hl]
  · intro fd l
    show Function.update w.poller.channels (w.channels i).fd none fd = some l ↔ _
    by_cases hf : fd = (w.channels i).fd
    · rw [hf, Function.update_self]
      constructor
      · exact nofun
      · rintro ⟨hl, hlfd⟩
        rw [h.injective l i hlfd] at hl
        exact absurd hl hgone
    · rw [Function.update_of_ne hf, h.registered, hmem]
      constructor
      · rintro ⟨rfl | hl, rfl⟩
        · exact absurd rfl hf
        · exact ⟨hl, rfl⟩
      · rintro ⟨hl, rfl⟩
        exact ⟨Or.inr hl, rfl⟩
  · rw [length_swapErase, ← h.length_eq]
    exact length_swapErase w.poller.pollFds k last
  · intro m l hm
    have hmlt := (List.getElem?_eq_some_iff.mp hm).1
    rw [length_swapErase] at hmlt
    have hslots : (((w.dropFd (w.channels i).fd k last).setChannel j
        { w.channels j with index := k }).poller.pollFds)[m]? =
        if m = k then some last else w.poller.pollFds[m]? :=
      getElem?_swapErase k m (by rw [h.length_eq]; exact hmlt)
    rw [getElem?_swapErase k m hmlt] at hm
    rw [hslots]
    by_cases hmk : m = k
    · rw [if_pos hmk] at hm
      rw [if_pos hmk, ← Option.some.inj hm, hself]
      exact ⟨by rw [hmk], last, rfl, hholds⟩
    · rw [if_neg hmk] at hm
      obtain ⟨hindex, pfd, hpfd, hl⟩ := h.slot m l hm
      have hlj : l ≠ j := by
        rintro rfl
        rw [List.getLast?_eq_getElem?] at hj
        have hend := (h.slot _ l hj).1
        omega
      rw [if_neg hmk, hother l hlj]
      exact ⟨hindex, pfd, hpfd, hl⟩

/-- An operation keeps the places, or an assertion of it fails. -/
theorem Placed.perform (h : Placed w owners) (op : SlotOp ι) :
    Outcome (perform w op) (fun v => ∃ owners', Placed v owners') (· = .assertion) := by
  cases op with
  | update i events =>
    have hchannel := withEvents_channels w i events
    unfold Slots.perform updateChannel
    dsimp only
    rw [hchannel]
    split
    · split
      · rename_i hnone
        exact .ok ⟨_, h.push events hnone⟩
      · exact .error rfl
    · split
      · rename_i hsome
        obtain ⟨k, pfd, hk, hindex, hpfd, hholds⟩ := h.place hsome
        have hpoller : (withEvents w i events).poller = w.poller := rfl
        rw [hindex, Int.toNat_natCast, hpoller, hpfd]
        dsimp only
        rw [if_pos hholds.1]
        exact .ok ⟨_, h.set events hk⟩
      · exact .error rfl
  | remove i =>
    unfold Slots.perform removeChannel
    dsimp only
    split
    · rename_i hguard
      obtain ⟨k, pfd, hk, hindex, hpfd, -⟩ := h.place hguard.1
      rw [hindex, Int.toNat_natCast, hpfd]
      dsimp only
      split
      · obtain ⟨j, last, hj, hholds, hok⟩ := h.eraseFd_ok hk
        rw [hok]
        exact .ok ⟨_, h.erase hk hj hholds⟩
      · exact .error rfl
    · exact .error rfl

end Operations

/-! ## `FillActiveChannels` -/

section Fill

variable {w : PollWatch ι}

theorem fillActiveChannels_done (slots : List (PollFd × Int)) {numEvents : Int}
    (hn : ¬0 < numEvents) (a : Active ι) : w.fillActiveChannels slots numEvents a = .ok a := by
  cases slots with
  | nil => rfl
  | cons slot slots => rw [fillActiveChannels, if_neg hn]

/-- A slot without events is passed over. -/
theorem fillActiveChannels_skip {slot : PollFd × Int} (hr : ¬0 < slot.2)
    (slots : List (PollFd × Int)) (numEvents : Int) (a : Active ι) :
    w.fillActiveChannels (slot :: slots) numEvents a =
      w.fillActiveChannels slots numEvents a := by
  by_cases hn : 0 < numEvents
  · rw [fillActiveChannels, if_pos hn, if_neg hr]
  · rw [fillActiveChannels_done _ hn, fillActiveChannels_done _ hn]

/-- The loop over slots of which each with events belongs to its owner. -/
theorem fillActiveChannels_spec {slots : List (PollFd × Int)} {owners : List ι}
    (hmatch : List.Forall₂ (fun slot i => 0 < slot.2 →
      slot.1.fd = (w.channels i).fd ∧ w.poller.channels (w.channels i).fd = some i) slots owners)
    (hnodup : owners.Nodup) (a : Active ι) :
    ∃ a', w.fillActiveChannels slots (slots.filter fun slot => 0 < slot.2).length a = .ok a' ∧
      a'.channels = a.channels ++
        ((slots.zip owners).filter fun x => 0 < x.1.2).map Prod.snd ∧
      (∀ x ∈ slots.zip owners, a'.revents x.2 = if 0 < x.1.2 then x.1.2 else a.revents x.2) ∧
      ∀ i, i ∉ owners → a'.revents i = a.revents i := by
  induction hmatch generalizing a with
  | nil => exact ⟨a, rfl, (List.append_nil _).symm, by simp, fun _ _ => rfl⟩
  | @cons slot i slots owners hslot _ ih =>
    obtain ⟨hnew, hrest⟩ := List.nodup_cons.mp hnodup
    by_cases hr : 0 < slot.2
    · obtain ⟨hfd, hi⟩ := hslot hr
      obtain ⟨a', hok, hchannels, hzip, hother⟩ :=
        ih hrest ⟨a.channels ++ [i], Function.update a.revents i slot.2⟩
      refine ⟨a', ?_, ?_, ?_, ?_⟩
      · rw [List.filter_cons_of_pos (by simpa using hr), List.length_cons, fillActiveChannels,
          if_pos (by omega), if_pos hr, hfd, hi]
        dsimp only
        rw [if_pos rfl, Int.natCast_succ, Int.add_sub_cancel]
        exact hok
      · rw [hchannels, List.zip_cons_cons, List.filter_cons_of_pos (by simpa using hr),
          List.map_cons, List.append_assoc]
        rfl
      · intro x hx
        rcases List.mem_cons.mp hx with rfl | hx
        · rw [hother i hnew, if_pos hr]
          exact Function.update_self ..
        · have hne : x.2 ≠ i := fun heq => hnew (heq ▸ (List.of_mem_zip hx).2)
          rw [hzip x hx]
          congr 1
          exact Function.update_of_ne hne ..
      · intro j hj
        rw [List.mem_cons, not_or] at hj
        rw [hother j hj.2]
        exact Function.update_of_ne hj.1 ..
    · obtain ⟨a', hok, hchannels, hzip, hother⟩ := ih hrest a
      refine ⟨a', ?_, ?_, ?_, ?_⟩
      · rw [List.filter_cons_of_neg (by simpa using hr), fillActiveChannels_skip hr]
        exact hok
      · rw [hchannels, List.zip_cons_cons, List.filter_cons_of_neg (by simpa using hr)]
      · intro x hx
        rcases List.mem_cons.mp hx with rfl | hx
        · rw [hother i hnew, if_neg hr]
        · exact hzip x hx
      · intro j hj
        exact hother j fun hmem => hj (List.mem_cons_of_mem i hmem)

/-- `FillActiveChannels` after a call of `poll`. -/
theorem Placed.fill {owners : List ι} (h : Placed w owners) {revents : List Int}
    {numEvents : Int} (hp : Polled w revents numEvents) (before : ι → Int) :
    ∃ a, w.fillActiveChannels (w.poller.pollFds.zip revents) numEvents ⟨[], before⟩ = .ok a ∧
      ExactlyActive w revents before a := by
  have hmatch := h.matched hp
  obtain ⟨a, hok, hchannels, hrevents, hother⟩ :=
    fillActiveChannels_spec hmatch h.nodup ⟨[], before⟩
  rw [List.nil_append] at hchannels
  have hactive (i : ι) : i ∈ a.channels ↔ ∃ slot,
      (slot, i) ∈ (w.poller.pollFds.zip revents).zip owners ∧ 0 < slot.2 := by
    rw [hchannels, List.mem_map]
    constructor
    · rintro ⟨⟨slot, j⟩, hx, rfl⟩
      obtain ⟨hmem, hr⟩ := List.mem_filter.mp hx
      exact ⟨slot, hmem, of_decide_eq_true hr⟩
    · rintro ⟨slot, hmem, hr⟩
      exact ⟨(slot, i), List.mem_filter.mpr ⟨hmem, decide_eq_true hr⟩, rfl⟩
  rw [hp.count]
  refine ⟨a, hok, ?_, ?_, ?_, ?_⟩
  · have hsnd : ((w.poller.pollFds.zip revents).zip owners).map Prod.snd = owners :=
      List.map_snd_zip (Nat.le_of_eq hmatch.length_eq.symm)
    rw [hchannels]
    exact (List.filter_sublist.map Prod.snd).nodup (hsnd.symm ▸ h.nodup)
  · intro i
    rw [hactive, h.registered, and_iff_left rfl]
    constructor
    · rintro ⟨slot, hmem, hr⟩
      obtain ⟨hi, hrev, -⟩ := h.mem_zip hmem
      exact ⟨hi, slot.2, hrev, hr⟩
    · rintro ⟨hi, r, hrev, hr⟩
      obtain ⟨slot, hmem⟩ := h.exists_zip hp.length_eq hi
      rw [(h.mem_zip hmem).2.1] at hrev
      cases hrev
      exact ⟨slot, hmem, hr⟩
  · intro i hi
    obtain ⟨slot, hmem, hr⟩ := (hactive i).mp hi
    have hrev := hrevents _ hmem
    rw [if_pos hr] at hrev
    rw [hrev]
    exact (h.mem_zip hmem).2.1
  · intro i hi
    by_cases howner : i ∈ owners
    · obtain ⟨slot, hmem⟩ := h.exists_zip hp.length_eq howner
      have hquiet : ¬0 < slot.2 := fun hr => hi ((hactive i).mpr ⟨slot, hmem, hr⟩)
      have hrev := hrevents _ hmem
      rwa [if_neg hquiet] at hrev
    · exact hother i howner

end Fill

/-! ## Every sequence of operations -/

/-- For every sequence of updates and removals, on channels with distinct descriptors that
are not negative, during which no assertion fails: slots and registered channels are in
bijection; the next operation can only fail at an assertion; and after any call of `poll`,
`FillActiveChannels` returns exactly the channels of the slots with events. -/
theorem slots_bijective (addr : ι → Nat) {fd : ι → Int} (hfd : Function.Injective fd)
    (hpos : ∀ i, 0 ≤ fd i) {ops : List (SlotOp ι)} {w : PollWatch ι}
    (hr : Run Step (PollWatch.new addr fd) ops w) :
    Bijective w ∧ (∀ op e, perform w op = .error e → e = .assertion) ∧
      ∀ revents numEvents before, Polled w revents numEvents →
        ∃ a, w.fillActiveChannels (w.poller.pollFds.zip revents) numEvents ⟨[], before⟩ = .ok a ∧
          ExactlyActive w revents before a := by
  have hplaced : ∃ owners, Placed w owners := by
    refine hr.invariant (P := fun w => ∃ owners, Placed w owners) ?_ ⟨[], placed_new addr hfd hpos⟩
    rintro w op v ⟨owners, h⟩ hstep
    exact (h.perform op).of_ok hstep
  obtain ⟨owners, h⟩ := hplaced
  exact ⟨h.bijective, fun op e he => (h.perform op).of_error he,
    fun revents numEvents before hp => h.fill hp before⟩

/-- Two channels of which the first is removed: the second moves into its slot, and is found
there when `poll` reports it. -/
theorem slots_bijective_moved : ∃ w : PollWatch Bool,
    Run Step (PollWatch.new (fun _ => 0) fun i => if i then 5 else 3)
      [.update false Events.kReadEvent, .update true Events.kReadEvent,
        .update false Events.kNoneEvent, .remove false] w ∧
    w.poller.pollFds = [⟨5, Events.kReadEvent⟩] ∧ (w.channels true).index = 0 ∧ Bijective w ∧
    Polled w [1] 1 ∧
    ∃ a, w.fillActiveChannels (w.poller.pollFds.zip [1]) 1 ⟨[], fun _ => 0⟩ = .ok a ∧
      ExactlyActive w [1] (fun _ => 0) a := by
  have hok : ((Run.exec (fun _ _ => True) perform
      (PollWatch.new (fun _ => 0) fun i => if i then 5 else 3)
      [.update false Events.kReadEvent, .update true Events.kReadEvent,
        .update false Events.kNoneEvent, .remove false]).map fun w =>
      (w.poller.pollFds, (w.channels true).index)) =
      some ([⟨5, Events.kReadEvent⟩], 0) := by decide +kernel
  obtain ⟨w, hw, hpair⟩ := Option.map_eq_some_iff.mp hok
  obtain ⟨hfds, hindex⟩ := Prod.mk.inj hpair
  have hr := (Run.of_exec hw).mono (S := Step) fun _ _ _ h => h.2
  have hpolled : Polled w [1] 1 := by
    refine ⟨?_, ?_, by decide⟩
    · rw [hfds]
      rfl
    · rw [hfds]
      decide
  obtain ⟨hbijective, -, hfill⟩ :=
    slots_bijective (fun _ => 0) (fun i j => by cases i <;> cases j <;> simp)
      (fun i => by cases i <;> decide) hr
  exact ⟨w, hr, hfds, hindex, hbijective, hpolled, hfill [1] 1 (fun _ => 0) hpolled⟩

end RyanNetwork.Slots

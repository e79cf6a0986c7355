import RyanNetwork.Lib.SwapErase
import RyanNetwork.Net.PollPoller

/-!
# The two pollers side by side

The same operations on the same channels, once over `EpollPoller` and once over
`PollPoller`. A channel that epoll has added or deleted owns a place in the array
of `poll`, and the entry there says which of the two it is by the sign of its
descriptor. Three operations have no counterpart: removing a channel that was
disabled while new, disabling a channel that is disabled already, and using a
channel again after its removal.
-/
namespace RyanNetwork.Interchange

open Lib Events Interest EpollPoller

set_option autoImplicit false

variable {ι : Type}

/-- Both pollers; the second is a fault once one of its assertions has failed. -/
structure Both (ι : Type) where
  epoll : Watch ι
  poll : Except Fault (PollWatch ι)

def Both.new (addr : ι → Nat) (fd : ι → Int) : Both ι :=
  ⟨.new addr fd, .ok (.new addr fd)⟩

/-- The descriptors that the kernel watches for epoll, with their masks, are those
that `poll` does not ignore. -/
def SameMonitored (w : Watch ι) (v : PollWatch ι) : Prop :=
  ∀ fd e, w.poller.interest fd = some e ↔ 0 ≤ fd ∧ ⟨fd, e⟩ ∈ v.poller.pollFds

def Interchangeable (s : Both ι) : Prop := ∃ v, s.poll = .ok v ∧ SameMonitored s.epoll v

/-- One operation on both; it has a result where it triggers no assertion in
`EpollPoller`. -/
def Both.perform [DecidableEq ι] (s : Both ι) (a : ι × ChannelOp) : Except Fault (Both ι) := do
  let w ← s.epoll.perform a.1 a.2
  return ⟨w, s.poll >>= fun v => v.perform a.1 a.2⟩

def Step [DecidableEq ι] (s : Both ι) (a : ι × ChannelOp) (t : Both ι) : Prop :=
  s.perform a = .ok t

/-- The operations that both pollers take alike, in the state before them: `Remove`
of a channel that was disabled after it had been added; any other one unless it
disables a disabled channel or is on a channel that was removed, whose index
`PollPoller::RemoveChannel` has not reset. -/
def Common (w : Watch ι) (v : PollWatch ι) (i : ι) (op : ChannelOp) : Prop :=
  (op = .remove → (w.channels i).index = kDeleted) ∧
    (op ≠ .remove →
      ¬((w.channels i).index = kDeleted ∧ op.mask (w.channels i).events = kNoneEvent) ∧
      ¬((w.channels i).index = kNew ∧ 0 ≤ (v.channels i).index))

instance (w : Watch ι) (v : PollWatch ι) (i : ι) (op : ChannelOp) :
    Decidable (Common w v i op) :=
  inferInstanceAs (Decidable ((_ → _) ∧ (_ → _)))

/-- The condition on an operation, as long as `PollPoller` has not failed. -/
def Shared (s : Both ι) (a : ι × ChannelOp) : Prop :=
  ∀ v ∈ s.poll.toOption, Common s.epoll v a.1 a.2

instance (s : Both ι) (a : ι × ChannelOp) : Decidable (Shared s a) :=
  inferInstanceAs (Decidable (∀ v ∈ s.poll.toOption, Common s.epoll v a.1 a.2))

/-! ## Places in the array -/

/-- The entry of a channel that epoll has added or deleted. -/
def entry (c : Channel) : PollFd := ⟨if c.index = kDeleted then negated c.fd else c.fd, c.events⟩

/-- What `PollPoller` holds for a channel, by the state that epoll has it in. -/
inductive Slot (c : Channel) (v : PollWatch ι) (i : ι) : Prop where
  | vacant (hi : c.index = kNew) (hc : v.poller.channels c.fd = none)
  | filled (k : Nat) (hi : c.index ≠ kNew) (hc : v.poller.channels c.fd = some i)
    (hk : (v.channels i).index = k) (hp : v.poller.pollFds[k]? = some (entry c))

/-- Every channel has its place, and every place its channel. -/
structure Matches (w : Watch ι) (v : PollWatch ι) : Prop where
  settled : Settled w
  nonneg : ∀ i, 0 ≤ (w.channels i).fd
  same : ∀ i, (v.channels i).fd = (w.channels i).fd ∧ (v.channels i).events = (w.channels i).events
  slot : ∀ i, Slot (w.channels i) v i
  owned : ∀ k, k < v.poller.pollFds.length →
    ∃ i, (w.channels i).index ≠ kNew ∧ (v.channels i).index = k

theorem entry_added {c : Channel} (h : c.index = kAdded) : entry c = ⟨c.fd, c.events⟩ := by
  unfold entry
  rw [if_neg (by rw [h]; decide)]

theorem entry_deleted {c : Channel} (h : c.index = kDeleted) :
    entry c = ⟨negated c.fd, c.events⟩ := by
  unfold entry
  rw [if_pos h]

theorem entryOf_ignored {c : Channel} (h : c.events = kNoneEvent) :
    PollWatch.entryOf c = ⟨negated c.fd, c.events⟩ := by
  unfold PollWatch.entryOf
  rw [if_pos (by simpa [Channel.isNoneEvent] using h)]

theorem entryOf_watched {c : Channel} (h : c.events ≠ kNoneEvent) :
    PollWatch.entryOf c = ⟨c.fd, c.events⟩ := by
  unfold PollWatch.entryOf
  rw [if_neg (by simpa [Channel.isNoneEvent] using h)]

theorem entry_fd (c : Channel) : (entry c).fd = c.fd ∨ (entry c).fd = negated c.fd := by
  unfold entry
  split
  · exact Or.inr rfl
  · exact Or.inl rfl

/-- The descriptor that `RemoveChannel` reads back from an entry. -/
theorem entry_decode {c : Channel} (h : 0 ≤ c.fd) :
    (if (entry c).fd < 0 then negated (entry c).fd else (entry c).fd) = c.fd := by
  rcases entry_fd c with he | he
  · rw [he, if_neg (by omega)]
  · rw [he, if_pos (negated_neg h), negated_negated]

/-- Entries of different descriptors differ. -/
theorem entry_injective {c d : Channel} (hc : 0 ≤ c.fd) (hd : 0 ≤ d.fd) (h : (entry c).fd = (entry d).fd) :
    c.fd = d.fd := by
  rw [← entry_decode hc, ← entry_decode hd, h]

namespace Matches

variable {w : Watch ι} {v : PollWatch ι}

/-- A channel that epoll knows has a place. -/
theorem place (h : Matches w v) {i : ι} (hi : (w.channels i).index ≠ kNew) :
    ∃ k : Nat, v.poller.channels (w.channels i).fd = some i ∧ (v.channels i).index = k ∧
      v.poller.pollFds[k]? = some (entry (w.channels i)) := by
  cases h.slot i with
  | vacant hn => exact absurd hn hi
  | filled k _ hc hk hp => exact ⟨k, hc, hk, hp⟩

theorem vacancy (h : Matches w v) {i : ι} (hi : (w.channels i).index = kNew) :
    v.poller.channels (w.channels i).fd = none := by
  cases h.slot i with
  | vacant _ hc => exact hc
  | filled _ hn => exact absurd hi hn

/-- The entry at a place is that of a channel which epoll knows. -/
theorem owner (h : Matches w v) {k : Nat} {pfd : PollFd} (hk : v.poller.pollFds[k]? = some pfd) :
    ∃ i, (w.channels i).index ≠ kNew ∧ (v.channels i).index = k ∧
      v.poller.channels (w.channels i).fd = some i ∧ pfd = entry (w.channels i) := by
  obtain ⟨hlt, -⟩ := List.getElem?_eq_some_iff.mp hk
  obtain ⟨i, hi, hik⟩ := h.owned k hlt
  obtain ⟨k', hc, hk', hp⟩ := h.place hi
  have : k' = k := by omega
  subst this
  exact ⟨i, hi, hik, hc, Option.some.inj (hk.symm.trans hp)⟩

/-- No two channels share a place. -/
theorem index_injective (h : Matches w v) {i j : ι} (hi : (w.channels i).index ≠ kNew)
    (hj : (w.channels j).index ≠ kNew) (he : (v.channels i).index = (v.channels j).index) : i = j := by
  obtain ⟨k, -, hk, hp⟩ := h.place hi
  obtain ⟨l, -, hl, hq⟩ := h.place hj
  have hkl : k = l := by omega
  subst hkl
  apply h.settled.distinct
  apply entry_injective (h.nonneg i) (h.nonneg j)
  rw [Option.some.inj (hp.symm.trans hq)]

theorem sameMonitored (h : Matches w v) : SameMonitored w v := by
  intro fd e
  constructor
  · intro hw
    have hsome : ∃ i, (w.channels i).fd = fd := by
      by_contra hn
      rw [(h.settled.only fd (not_exists.mp hn)).2] at hw
      cases hw
    obtain ⟨i, rfl⟩ := hsome
    cases h.settled.registered i with
    | new _ _ hk =>
      rw [hk] at hw
      cases hw
    | deleted _ _ hk =>
      rw [hk] at hw
      cases hw
    | added hi _ hk =>
      obtain ⟨k, -, -, hp⟩ := h.place (i := i) (by rw [hi]; decide)
      have hev : (w.channels i).events = e := Option.some.inj (hk.symm.trans hw)
      have hent : entry (w.channels i) = ⟨(w.channels i).fd, e⟩ := by rw [entry_added hi, hev]
      exact ⟨h.nonneg i, hent ▸ List.mem_of_getElem? hp⟩
  · intro ⟨hpos, hmem⟩
    obtain ⟨k, hk⟩ := List.mem_iff_getElem?.mp hmem
    obtain ⟨i, hi, -, -, hent⟩ := h.owner hk
    cases h.settled.registered i with
    | new hn => exact absurd hn hi
    | deleted hd =>
      rw [entry_deleted hd] at hent
      have := negated_neg (h.nonneg i)
      injection hent with hfd
      omega
    | added ha _ hint =>
      rw [entry_added ha] at hent
      injection hent with hfd hev
      rw [hfd, hev]
      exact hint

end Matches

theorem matches_new (addr : ι → Nat) {fd : ι → Int} (hfd : Function.Injective fd)
    (hpos : ∀ i, 0 ≤ fd i) : Matches (.new addr fd) (.new addr fd) where
  settled := settled_new addr hfd
  nonneg := hpos
  same := fun _ => ⟨rfl, rfl⟩
  slot := fun _ => .vacant rfl rfl
  owned := fun _ hk => absurd hk (Nat.not_lt_zero _)

section Operations

variable [DecidableEq ι] {w w' : Watch ι} {v : PollWatch ι} {i : ι} {op : ChannelOp}

/-! ## What an operation does in `EpollPoller` -/

/-- The channel after an update that triggers no assertion. -/
theorem perform_update_channel (hop : op ≠ .remove) (h : w.perform i op = .ok w') :
    ∃ d, w'.channels = Function.update w.channels i d ∧ d.fd = (w.channels i).fd ∧
      d.events = op.mask (w.channels i).events ∧
      d.index = (if (w.channels i).index = kAdded ∧ op.mask (w.channels i).events = kNoneEvent
        then kDeleted else kAdded) ∧
      (d.index = kAdded → w'.poller.interest (w.channels i).fd = some d.events) := by
  unfold Watch.perform at h
  rw [ChannelOp.apply_update hop] at h
  obtain ⟨⟨q, d⟩, hok, h⟩ := bind_ok h
  cases h
  refine ⟨d, rfl, (updateChannel_keeps hok).2.1, (updateChannel_keeps hok).2.2, ?_⟩
  rcases updateChannel_cases hok with h | h | h | h
  · obtain ⟨hi, -, -, rfl, rfl⟩ := h
    dsimp only at hi
    rw [if_neg (fun hn => absurd (hi.symm.trans hn.1) (by decide))]
    exact ⟨rfl, fun _ => Function.update_self ..⟩
  · obtain ⟨hi, -, -, rfl, rfl⟩ := h
    dsimp only at hi
    rw [if_neg (fun hn => absurd (hi.symm.trans hn.1) (by decide))]
    exact ⟨rfl, fun _ => Function.update_self ..⟩
  · obtain ⟨hi, -, he, rfl, rfl⟩ := h
    dsimp only at hi he
    rw [if_pos ⟨hi, he⟩]
    exact ⟨rfl, fun ha => absurd (show kDeleted = kAdded from ha) (by decide)⟩
  · obtain ⟨hi, -, he, -, rfl, rfl⟩ := h
    dsimp only at hi he
    rw [if_neg (fun hn => he hn.2)]
    exact ⟨hi, fun _ => Function.update_self ..⟩

/-- The channel after a `Remove` that triggers no assertion. -/
theorem perform_remove_channel (hs : Settled w) (h : w.perform i .remove = .ok w') :
    (w.channels i).index ≠ kNew ∧ (w.channels i).events = kNoneEvent ∧
      ∃ d, w'.channels = Function.update w.channels i d ∧ d.fd = (w.channels i).fd ∧
        d.events = (w.channels i).events ∧ d.index = kNew := by
  unfold Watch.perform at h
  obtain ⟨⟨q, d⟩, hok, h⟩ := bind_ok h
  cases h
  change w.poller.removeChannel (w.channels i) = .ok (q, d) at hok
  have hn : (w.channels i).index ≠ kNew := by
    intro hn
    cases hs.registered i with
    | new _ hc =>
      unfold removeChannel at hok
      rw [if_neg (by simp [hc])] at hok
      cases hok
    | added hi => exact absurd (hi.symm.trans hn) (by decide)
    | deleted hi => exact absurd (hi.symm.trans hn) (by decide)
  have he : (w.channels i).events = kNoneEvent := by
    by_contra he
    rw [removeChannel_interested he] at hok
    cases hok
  refine ⟨hn, he, d, rfl, ?_⟩
  unfold removeChannel at hok
  split at hok
  · split at hok
    · obtain ⟨p, -, hok⟩ := bind_ok hok
      cases hok
      exact ⟨rfl, rfl, rfl⟩
    · cases hok
      exact ⟨rfl, rfl, rfl⟩
  · cases hok

theorem perform_settled_of_ok (hs : Settled w) (h : w.perform i op = .ok w') :
    Settled w' ∧ ∀ j, (w'.channels j).fd = (w.channels j).fd := by
  have ha : op.Allowed (w.channels i) := by
    intro hop
    subst hop
    obtain ⟨hn, he, -⟩ := perform_remove_channel hs h
    exact ⟨hn, he⟩
  obtain ⟨t, hok, ht, hfd⟩ := perform_settled hs ha
  cases hok.symm.trans h
  exact ⟨ht, hfd⟩

/-! ## What it does in `PollPoller` -/

/-- The channel with the mask that the operation leaves on it. -/
def masked (v : PollWatch ι) (i : ι) (op : ChannelOp) : PollWatch ι :=
  v.setChannel i { v.channels i with events := op.mask (v.channels i).events }

theorem masked_self (v : PollWatch ι) (i : ι) (op : ChannelOp) :
    (masked v i op).channels i = { v.channels i with events := op.mask (v.channels i).events } :=
  Function.update_self ..

theorem masked_other (v : PollWatch ι) {i j : ι} (op : ChannelOp) (h : j ≠ i) :
    (masked v i op).channels j = v.channels j := Function.update_of_ne h ..

/-- A channel without a place gets the next one. -/
theorem perform_vacant (h : Matches w v) (hop : op ≠ .remove) (hi : (w.channels i).index = kNew)
    (hneg : (v.channels i).index < 0) : v.perform i op = .ok ((masked v i op).pushFd i) := by
  have hc := h.vacancy hi
  rw [← (h.same i).1] at hc
  rw [PollWatch.perform_update hop]
  change (masked v i op).updateChannel i = _
  unfold PollWatch.updateChannel
  rw [masked_self, if_pos hneg]
  exact if_pos hc

/-- A channel that was removed still has the index of its old place. -/
theorem perform_stale (h : Matches w v) (hop : op ≠ .remove) (hi : (w.channels i).index = kNew)
    (hpos : 0 ≤ (v.channels i).index) : v.perform i op = .error .assertion := by
  have hc := h.vacancy hi
  rw [← (h.same i).1] at hc
  rw [PollWatch.perform_update hop]
  change (masked v i op).updateChannel i = _
  unfold PollWatch.updateChannel
  rw [masked_self, if_neg (by simpa using hpos)]
  apply if_neg
  show ¬v.poller.channels (v.channels i).fd = some i
  rw [hc]
  simp

/-- A channel with a place has its entry there replaced. -/
theorem perform_filled (h : Matches w v) (hop : op ≠ .remove) (hi : (w.channels i).index ≠ kNew) :
    ∃ k : Nat, (v.channels i).index = k ∧ k < v.poller.pollFds.length ∧
      v.perform i op = .ok ((masked v i op).setFd k
        (PollWatch.entryOf ((masked v i op).channels i))) := by
  obtain ⟨k, hc, hk, hp⟩ := h.place hi
  refine ⟨k, hk, (List.getElem?_eq_some_iff.mp hp).1, ?_⟩
  rw [← (h.same i).1] at hc
  have hcur : (entry (w.channels i)).fd = (v.channels i).fd ∨
      (entry (w.channels i)).fd = negated (v.channels i).fd := by
    rw [(h.same i).1]
    exact entry_fd _
  have hmk : ((masked v i op).channels i).index = k := by
    rw [masked_self]
    exact hk
  have hmp : (masked v i op).poller.pollFds[((masked v i op).channels i).index.toNat]? =
      some (entry (w.channels i)) := by
    rw [hmk]
    exact hp
  rw [PollWatch.perform_update hop]
  change (masked v i op).updateChannel i = _
  unfold PollWatch.updateChannel
  dsimp only
  rw [if_neg (by rw [hmk]; omega), hmp]
  rw [if_pos (by rw [masked_self]; exact hc)]
  dsimp only
  rw [if_pos (by rw [masked_self]; exact hcur), hmk]
  rfl

/-- `Remove` of a channel whose entry is not negated. -/
theorem perform_remove_added (h : Matches w v) (hi : (w.channels i).index = kAdded) :
    v.perform i .remove = .error .assertion := by
  obtain ⟨k, hc, hk, hp⟩ := h.place (i := i) (by rw [hi]; decide)
  have hent : (entry (w.channels i)).fd = (w.channels i).fd := by rw [entry_added hi]
  have hne : ¬((entry (w.channels i)).fd = negated (v.channels i).fd ∧
      (entry (w.channels i)).events = (v.channels i).events) := by
    rw [hent, (h.same i).1]
    have h0 := h.nonneg i
    have h1 := negated_neg h0
    omega
  change v.removeChannel i = _
  unfold PollWatch.removeChannel
  dsimp only
  split
  · rw [hk, Int.toNat_natCast, hp]
    exact if_neg hne
  · rfl

/-! ## The places after an operation -/

/-- The channels after an operation on `i` that gives it the entry of `d`: what is
left to show is that the places of `i` and of the others are right. -/
theorem matches_of_update {v' : PollWatch ι} {d : Channel} (h : Matches w v)
    (hok : w.perform i op = .ok w') (hd : w'.channels = Function.update w.channels i d)
    (hsame : (v'.channels i).fd = d.fd ∧ (v'.channels i).events = d.events)
    (hother : ∀ j, j ≠ i → (v'.channels j).fd = (v.channels j).fd ∧
      (v'.channels j).events = (v.channels j).events)
    (hslot : Slot d v' i) (hslots : ∀ j, j ≠ i → Slot (w.channels j) v' j)
    (howned : ∀ k, k < v'.poller.pollFds.length →
      (d.index ≠ kNew ∧ (v'.channels i).index = k) ∨
        ∃ j, j ≠ i ∧ (w.channels j).index ≠ kNew ∧ (v'.channels j).index = k) :
    Matches w' v' := by
  obtain ⟨hs, hfd⟩ := perform_settled_of_ok h.settled hok
  have hself : w'.channels i = d := by rw [hd, Function.update_self]
  have hne (j : ι) (hj : j ≠ i) : w'.channels j = w.channels j := by
    rw [hd, Function.update_of_ne hj]
  constructor
  · exact hs
  · intro j
    rw [hfd]
    exact h.nonneg j
  · intro j
    by_cases hj : j = i
    · rw [hj, hself]
      exact hsame
    · rw [hne j hj, (hother j hj).1, (hother j hj).2]
      exact h.same j
  · intro j
    by_cases hj : j = i
    · rw [hj, hself]
      exact hslot
    · rw [hne j hj]
      exact hslots j hj
  · intro k hk
    rcases howned k hk with ⟨hi, hik⟩ | ⟨j, hj, hi, hjk⟩
    · exact ⟨i, by rw [hself]; exact hi, hik⟩
    · exact ⟨j, by rw [hne j hj]; exact hi, hjk⟩

theorem matches_push (h : Matches w v) (hop : op ≠ .remove) (hok : w.perform i op = .ok w')
    (hi : (w.channels i).index = kNew) (hneg : (v.channels i).index < 0) :
    ∃ v', v.perform i op = .ok v' ∧ Matches w' v' := by
  obtain ⟨d, hd, hfd, hev, hidx, -⟩ := perform_update_channel hop hok
  rw [if_neg (fun hn => absurd (hi.symm.trans hn.1) (by decide))] at hidx
  refine ⟨_, perform_vacant h hop hi hneg, ?_⟩
  have hself : ((masked v i op).pushFd i).channels i =
      { (masked v i op).channels i with index := v.poller.pollFds.length } :=
    Function.update_self ..
  have hother (j : ι) (hj : j ≠ i) : ((masked v i op).pushFd i).channels j = v.channels j := by
    rw [← masked_other v op hj]
    exact Function.update_of_ne hj ..
  have hfds : ((masked v i op).pushFd i).poller.pollFds = v.poller.pollFds ++ [entry d] := by
    show v.poller.pollFds ++ [_] = _
    rw [entry_added hidx, masked_self, hfd, hev, (h.same i).1, (h.same i).2]
  have hmap (k : Int) : ((masked v i op).pushFd i).poller.channels k =
      Function.update v.poller.channels (w.channels i).fd (some i) k := by
    show Function.update _ ((masked v i op).channels i).fd _ k = _
    rw [masked_self, (h.same i).1]
    rfl
  apply matches_of_update h hok hd
  · rw [hself, masked_self, hfd, hev, ← (h.same i).1, ← (h.same i).2]
    exact ⟨rfl, rfl⟩
  · intro j hj
    rw [hother j hj]
    exact ⟨rfl, rfl⟩
  · apply Slot.filled v.poller.pollFds.length
    · rw [hidx]
      decide
    · rw [hmap, hfd, Function.update_self]
    · rw [hself]
    · rw [hfds, List.getElem?_append_right (Nat.le_refl _), Nat.sub_self]
      rfl
  · intro j hj
    have hjfd : (w.channels j).fd ≠ (w.channels i).fd := fun he => hj (h.settled.distinct j i he)
    cases h.slot j with
    | vacant hn hc => exact .vacant hn (by rw [hmap, Function.update_of_ne hjfd, hc])
    | filled k hn hc hk hp =>
      apply Slot.filled k hn
      · rw [hmap, Function.update_of_ne hjfd, hc]
      · rw [hother j hj, hk]
      · rw [hfds, List.getElem?_append_left (List.getElem?_eq_some_iff.mp hp).1, hp]
  · intro k hk
    rw [hfds, List.length_append, List.length_singleton] at hk
    by_cases hlt : k < v.poller.pollFds.length
    · obtain ⟨j, hj, hjk⟩ := h.owned k hlt
      have hji : j ≠ i := fun he => hj (he ▸ hi)
      exact Or.inr ⟨j, hji, hj, by rw [hother j hji, hjk]⟩
    · refine Or.inl ⟨by rw [hidx]; decide, ?_⟩
      rw [hself]
      show (v.poller.pollFds.length : Int) = k
      omega

theorem matches_set (h : Matches w v) (hop : op ≠ .remove) (hok : w.perform i op = .ok w')
    (hi : (w.channels i).index ≠ kNew)
    (hdel : ¬((w.channels i).index = kDeleted ∧ op.mask (w.channels i).events = kNoneEvent)) :
    ∃ v', v.perform i op = .ok v' ∧ Matches w' v' := by
  obtain ⟨d, hd, hfd, hev, hidx, -⟩ := perform_update_channel hop hok
  obtain ⟨k, hk, hlt, hperf⟩ := perform_filled h hop hi
  refine ⟨_, hperf, ?_⟩
  have hreg : (w.channels i).index = kAdded ∨ (w.channels i).index = kDeleted :=
    (index_cases (h.settled.registered i)).resolve_left hi
  have hnew : d.index ≠ kNew := by
    rw [hidx]
    split
    · decide
    · decide
  have hfd' : ((masked v i op).channels i).fd = d.fd := by
    rw [masked_self, hfd, ← (h.same i).1]
  have hev' : ((masked v i op).channels i).events = d.events := by
    rw [masked_self, hev, ← (h.same i).2]
  have hent : PollWatch.entryOf ((masked v i op).channels i) = entry d := by
    by_cases hnone : op.mask (w.channels i).events = kNoneEvent
    · have hadd := hreg.resolve_right (fun hn => hdel ⟨hn, hnone⟩)
      rw [if_pos ⟨hadd, hnone⟩] at hidx
      rw [entryOf_ignored (by rw [hev', hev, hnone]), entry_deleted hidx, hfd', hev']
    · rw [if_neg (fun hn => hnone hn.2)] at hidx
      rw [entryOf_watched (by rw [hev', hev]; exact hnone), entry_added hidx, hfd', hev']
  have hc : v.poller.channels (w.channels i).fd = some i := by
    obtain ⟨-, hc, -⟩ := h.place hi
    exact hc
  rw [hent]
  have hfds : ((masked v i op).setFd k (entry d)).poller.pollFds = v.poller.pollFds.set k (entry d) :=
    rfl
  have hself : ((masked v i op).setFd k (entry d)).channels i = (masked v i op).channels i := rfl
  have hother (j : ι) (hj : j ≠ i) :
      ((masked v i op).setFd k (entry d)).channels j = v.channels j := masked_other v op hj
  apply matches_of_update h hok hd
  · exact ⟨hfd', hev'⟩
  · intro j hj
    rw [hother j hj]
    exact ⟨rfl, rfl⟩
  · apply Slot.filled k hnew
    · rw [hfd]
      exact hc
    · rw [hself, masked_self, hk]
    · rw [hfds, List.getElem?_set_self hlt]
  · intro j hj
    cases h.slot j with
    | vacant hn hc => exact .vacant hn hc
    | filled l hn hc hl hp =>
      have hkl : k ≠ l := by
        intro he
        apply hj
        apply h.index_injective hn hi
        omega
      apply Slot.filled l hn
      · exact hc
      · rw [hother j hj, hl]
      · rw [hfds, List.getElem?_set_ne hkl, hp]
  · intro l hl
    rw [hfds, List.length_set] at hl
    by_cases he : l = k
    · exact Or.inl ⟨hnew, by rw [hself, masked_self, hk, he]⟩
    · obtain ⟨j, hj, hjl⟩ := h.owned l hl
      have hji : j ≠ i := by
        intro hji
        apply he
        rw [hji] at hjl
        omega
      exact Or.inr ⟨j, hji, hj, by rw [hother j hji, hjl]⟩

/-- `RemoveChannel` of a channel whose entry is negated: the owner of the last place
moves to the place that becomes free. If that is the channel itself, it stays where it is. -/
theorem perform_remove_deleted (h : Matches w v) (hi : (w.channels i).index = kDeleted)
    (he : (w.channels i).events = kNoneEvent) :
    ∃ k j, (v.channels i).index = (k : Nat) ∧ k < v.poller.pollFds.length ∧
      (w.channels j).index ≠ kNew ∧
      (v.channels j).index = (v.poller.pollFds.length - 1 : Nat) ∧
      v.perform i .remove = .ok ((v.dropFd (w.channels i).fd k (entry (w.channels j))).setChannel j
        { v.channels j with index := k }) := by
  have hne : (w.channels i).index ≠ kNew := by
    rw [hi]
    decide
  obtain ⟨k, hc, hk, hp⟩ := h.place hne
  have hlt := (List.getElem?_eq_some_iff.mp hp).1
  have hlen : v.poller.pollFds.length - 1 < v.poller.pollFds.length := by omega
  have hlast := List.getElem?_eq_getElem hlen
  obtain ⟨j, hj, hjk, hjc, hje⟩ := h.owner hlast
  rw [hje, ← List.getLast?_eq_getElem?] at hlast
  refine ⟨k, j, hk, hlt, hj, hjk, ?_⟩
  have herase : v.removeChannel i = v.eraseFd (w.channels i).fd k := by
    unfold PollWatch.removeChannel
    dsimp only
    have hnone : (v.channels i).isNoneEvent = true := by
      simp [Channel.isNoneEvent, (h.same i).2, he]
    rw [(h.same i).1, if_pos ⟨hc, hnone, by omega⟩, hk, Int.toNat_natCast, hp]
    dsimp only
    rw [if_pos (by rw [entry_deleted hi, (h.same i).2]; exact ⟨rfl, rfl⟩)]
  show v.removeChannel i = _
  rw [herase]
  unfold PollWatch.eraseFd
  rw [hlast]
  dsimp only
  by_cases hkn : k = v.poller.pollFds.length - 1
  · have hsame : { v.channels j with index := (k : Int) } = v.channels j := by
      rw [hkn, ← hjk]
    rw [if_pos hkn, hsame]
    unfold PollWatch.setChannel PollWatch.dropFd
    rw [Function.update_eq_self]
  · rw [if_neg hkn, entry_decode (h.nonneg j)]
    have hji : (w.channels j).fd ≠ (w.channels i).fd := by
      intro hfd
      rw [h.settled.distinct j i hfd] at hjk
      omega
    rw [Function.update_of_ne hji, hjc]

theorem matches_erase (h : Matches w v) (hok : w.perform i .remove = .ok w')
    (hi : (w.channels i).index = kDeleted) :
    ∃ v', v.perform i .remove = .ok v' ∧ Matches w' v' := by
  obtain ⟨hreg, he, d, hd, hfd, hev, hidx⟩ := perform_remove_channel h.settled hok
  obtain ⟨k, j, hk, hlt, hj, hjk, hperf⟩ := perform_remove_deleted h hi he
  refine ⟨_, hperf, ?_⟩
  have hmaps (l : ι) (hl : l ≠ i) : Function.update v.poller.channels (w.channels i).fd none
      (w.channels l).fd = v.poller.channels (w.channels l).fd :=
    Function.update_of_ne (fun hfd => hl (h.settled.distinct l i hfd)) ..
  have hself : ((v.dropFd (w.channels i).fd k (entry (w.channels j))).setChannel j
      { v.channels j with index := k }).channels j = { v.channels j with index := k } :=
    Function.update_self ..
  have hother (l : ι) (hl : l ≠ j) : ((v.dropFd (w.channels i).fd k
      (entry (w.channels j))).setChannel j { v.channels j with index := k }).channels l =
      v.channels l :=
    Function.update_of_ne hl ..
  have hkept (l : ι) : (((v.dropFd (w.channels i).fd k (entry (w.channels j))).setChannel j
      { v.channels j with index := k }).channels l).fd = (v.channels l).fd ∧
      (((v.dropFd (w.channels i).fd k (entry (w.channels j))).setChannel j
      { v.channels j with index := k }).channels l).events = (v.channels l).events := by
    by_cases hlj : l = j
    · rw [hlj, hself]
      exact ⟨rfl, rfl⟩
    · rw [hother l hlj]
      exact ⟨rfl, rfl⟩
  apply matches_of_update h hok hd
  · rw [(hkept i).1, (hkept i).2, hfd, hev]
    exact h.same i
  · exact fun l _ => hkept l
  · apply Slot.vacant hidx
    rw [hfd]
    exact Function.update_self ..
  · intro l hl
    cases h.slot l with
    | vacant hn hc => exact .vacant hn ((hmaps l hl).trans hc)
    | filled m hn hc hm hp =>
      have hmlt := (List.getElem?_eq_some_iff.mp hp).1
      have hmk : m ≠ k := fun he => hl (h.index_injective hn hreg (by omega))
      by_cases hlj : l = j
      · subst hlj
        apply Slot.filled k hn ((hmaps l hl).trans hc)
        · rw [hself]
        · show (swapErase v.poller.pollFds k _)[k]? = _
          rw [getElem?_swapErase k k (by omega), if_pos rfl]
      · have hmn : m ≠ v.poller.pollFds.length - 1 := fun he =>
          hlj (h.index_injective hn hj (by omega))
        apply Slot.filled m hn ((hmaps l hl).trans hc)
        · rw [hother l hlj, hm]
        · show (swapErase v.poller.pollFds k _)[m]? = _
          rw [getElem?_swapErase k m (by omega), if_neg hmk, hp]
  · intro m hm
    have hm' : m < v.poller.pollFds.length - 1 :=
      Nat.lt_of_lt_of_eq hm (length_swapErase _ _ _)
    by_cases hmk : m = k
    · have hji : j ≠ i := by
        intro hji
        rw [hji] at hjk
        omega
      exact Or.inr ⟨j, hji, hj, by rw [hself, hmk]⟩
    · obtain ⟨l, hl, hlm⟩ := h.owned m (by omega)
      have hlj : l ≠ j := by
        intro hlj
        rw [hlj] at hlm
        omega
      refine Or.inr ⟨l, ?_, hl, by rw [hother l hlj, hlm]⟩
      intro hli
      rw [hli] at hlm
      omega

/-! ## Steps and runs -/

/-- An operation that both take alike succeeds in `PollPoller` and keeps the places. -/
theorem perform_matches (h : Matches w v) (hok : w.perform i op = .ok w')
    (hc : Common w v i op) : ∃ v', v.perform i op = .ok v' ∧ Matches w' v' := by
  by_cases hop : op = .remove
  · subst hop
    exact matches_erase h hok (hc.1 rfl)
  · obtain ⟨hdel, hstale⟩ := hc.2 hop
    by_cases hi : (w.channels i).index = kNew
    · have hneg : (v.channels i).index < 0 := by
        by_contra hn
        exact hstale ⟨hi, by omega⟩
      exact matches_push h hop hok hi hneg
    · exact matches_set h hop hok hi hdel

/-- Any other operation fails an assertion of `PollPoller` or leaves a descriptor
watched by epoll alone. -/
theorem perform_parts (h : Matches w v) (hok : w.perform i op = .ok w')
    (hc : ¬Common w v i op) {v' : PollWatch ι} (hv : v.perform i op = .ok v') :
    ¬SameMonitored w' v' := by
  by_cases hop : op = .remove
  · subst hop
    obtain ⟨hreg, -⟩ := perform_remove_channel h.settled hok
    have hi : (w.channels i).index = kAdded := by
      rcases index_cases (h.settled.registered i) with hn | ha | hd
      · exact absurd hn hreg
      · exact ha
      · exact absurd ⟨fun _ => hd, fun hne => absurd rfl hne⟩ hc
    rw [perform_remove_added h hi] at hv
    cases hv
  · by_cases hi : (w.channels i).index = kNew
    · have hpos : 0 ≤ (v.channels i).index := by
        by_contra hneg
        apply hc
        refine ⟨fun he => absurd he hop, fun _ => ⟨?_, fun hn => hneg hn.2⟩⟩
        exact fun hn => absurd (hi.symm.trans hn.1) (by decide)
      rw [perform_stale h hop hi hpos] at hv
      cases hv
    · have hdel : (w.channels i).index = kDeleted ∧
          op.mask (w.channels i).events = kNoneEvent := by
        by_contra hn
        exact hc ⟨fun he => absurd he hop, fun _ => ⟨hn, fun hs => hi hs.1⟩⟩
      obtain ⟨d, -, -, hev, hidx, hint⟩ := perform_update_channel hop hok
      rw [if_neg (fun hn => absurd (hdel.1.symm.trans hn.1) (by decide))] at hidx
      obtain ⟨k, hk, hlt, hperf⟩ := perform_filled h hop hi
      cases hperf.symm.trans hv
      intro hsame
      obtain ⟨-, hmem⟩ := (hsame _ _).mp (hint hidx)
      have hset : (⟨(w.channels i).fd, d.events⟩ : PollFd) ∈ v.poller.pollFds.set k
          (PollWatch.entryOf ((masked v i op).channels i)) := hmem
      have hent : PollWatch.entryOf ((masked v i op).channels i) =
          ⟨negated (w.channels i).fd, kNoneEvent⟩ := by
        rw [masked_self, entryOf_ignored (by rw [(h.same i).2]; exact hdel.2), (h.same i).1,
          (h.same i).2, hdel.2]
      obtain ⟨m, hm⟩ := List.mem_iff_getElem?.mp hset
      rw [hent] at hm
      by_cases hmk : m = k
      · rw [hmk, List.getElem?_set_self hlt] at hm
        have := congrArg PollFd.fd (Option.some.inj hm)
        have hneg := negated_neg (h.nonneg i)
        have hpos := h.nonneg i
        dsimp only at this
        omega
      · rw [List.getElem?_set_ne (Ne.symm hmk)] at hm
        obtain ⟨j, hj, hjm, -, hje⟩ := h.owner hm
        have hfd : (entry (w.channels j)).fd = (w.channels i).fd := by rw [← hje]
        have hji : j = i := by
          apply h.settled.distinct
          rw [← entry_decode (h.nonneg j), hfd, if_neg (by have := h.nonneg i; omega)]
        rw [hji] at hjm
        omega

theorem step_parts {s t : Both ι} {a : ι × ChannelOp} (h : Step s a t) :
    s.epoll.perform a.1 a.2 = .ok t.epoll ∧ t.poll = s.poll >>= fun v => v.perform a.1 a.2 := by
  obtain ⟨w, hw, h⟩ := bind_ok h
  cases h
  exact ⟨hw, rfl⟩

/-- Along every sequence of operations that triggers no assertion in `EpollPoller`,
every operation leaves the pollers interchangeable exactly if each is one that both
take alike in the state before it. -/
theorem pollers_interchangeable_iff (addr : ι → Nat) (fd : ι → Int)
    (hfd : Function.Injective fd) (hpos : ∀ i, 0 ≤ fd i) {s : Both ι}
    {steps : List (ι × ChannelOp)} (hr : Run Step (Both.new addr fd) steps s) :
    (∀ pre a post t u, steps = pre ++ a :: post → Run Step (Both.new addr fd) pre t →
        Step t a u → Interchangeable u) ↔
      ∀ pre a post t, steps = pre ++ a :: post → Run Step (Both.new addr fd) pre t →
        Shared t a := by
  apply Run.steps_iff (I := fun s => ∃ v, s.poll = .ok v ∧ Matches s.epoll v)
    (fun s a t t' h h' => Except.ok.inj (h.symm.trans h')) ?_ ?_ hr
    ⟨_, rfl, matches_new addr hfd hpos⟩
  · intro s a t ⟨v, hv, hm⟩ hstep hshared
    obtain ⟨hepoll, hpoll⟩ := step_parts hstep
    have hc : Common s.epoll v a.1 a.2 := hshared v (by rw [hv]; rfl)
    obtain ⟨v', hperf, hm'⟩ := perform_matches hm hepoll hc
    have hok : t.poll = .ok v' := by
      rw [hpoll, hv]
      exact hperf
    exact ⟨⟨v', hok, hm'⟩, v', hok, hm'.sameMonitored⟩
  · intro s a t ⟨v, hv, hm⟩ hstep hshared
    obtain ⟨hepoll, hpoll⟩ := step_parts hstep
    have hc : ¬Common s.epoll v a.1 a.2 := by
      intro hc
      apply hshared
      rw [Shared, hv]
      intro u hu
      cases hu
      exact hc
    intro ⟨v', hv', hsame⟩
    rw [hpoll, hv] at hv'
    exact perform_parts hm hepoll hc hv' hsame

end Operations

/-- Two listening sockets; the first is disabled and removed after it was enabled. -/
theorem pollers_interchangeable_after_listen :
    ∃ s, Run Step (Both.new (fun i : Bool => if i then 1 else 2) (fun i => if i then 5 else 6))
        [(true, .enableReading), (false, .enableReading), (true, .disableAll), (true, .remove)] s ∧
      Interchangeable s := by
  have hfd : Function.Injective fun i : Bool => if i then (5 : Int) else 6 := by
    intro i j h
    cases i <;> cases j <;> simp_all
  have hpos : ∀ i : Bool, 0 ≤ if i then (5 : Int) else 6 := by decide
  have hok : (Run.exec Shared Both.perform
      (Both.new (fun i : Bool => if i then 1 else 2) (fun i => if i then 5 else 6))
      [(true, .enableReading), (false, .enableReading), (true, .disableAll),
        (true, .remove)]).isSome = true := by decide
  obtain ⟨s, hs⟩ := Option.isSome_iff_exists.mp hok
  have hguarded : Run (fun t a u => Step t a u ∧ Shared t a) _ _ s :=
    (Run.of_exec hs).mono fun _ _ _ h => ⟨h.2, h.1⟩
  have hr := hguarded.mono (S := Step) fun _ _ _ h => h.1
  have hsplit : Run Step _ ([(true, ChannelOp.enableReading), (false, .enableReading),
      (true, .disableAll)] ++ [(true, .remove)]) s := hr
  obtain ⟨t, hpre, hlast⟩ := hsplit.split
  cases hlast with
  | cons hstep hnil =>
    cases hnil
    refine ⟨_, hr, (pollers_interchangeable_iff _ _ hfd hpos hr).mpr ?_ _ _ [] t _ rfl hpre hstep⟩
    exact hguarded.guarded fun _ _ _ _ h h' => Except.ok.inj (h.symm.trans h')

/-- The destructor of an acceptor that never listened: `EpollPoller` takes both calls,
the assertion of `PollPoller::RemoveChannel` on the negated descriptor fails. -/
theorem unlistened_acceptor_destroyed :
    ∃ s, Run Step (Both.new (fun _ : Unit => 1) (fun _ => 5)) [((), .disableAll), ((), .remove)] s ∧
      s.poll.toOption.isNone ∧ ¬Interchangeable s := by
  have hok : (Run.exec (fun (_ : Both Unit) (_ : Unit × ChannelOp) => True) Both.perform
      (Both.new (fun _ : Unit => 1) (fun _ => 5)) [((), .disableAll), ((), .remove)]).map
        (fun s => s.poll.toOption.isNone) = some true := by decide
  obtain ⟨s, hs, hfail⟩ := Option.map_eq_some_iff.mp hok
  refine ⟨s, (Run.of_exec hs).mono fun _ _ _ h => h.2, hfail, ?_⟩
  intro ⟨v, hv, _⟩
  rw [hv] at hfail
  cases hfail

end RyanNetwork.Interchange

import RyanNetwork.Lib.Runs
import RyanNetwork.Net.Channel

/-!
# `EpollPoller` and the kernel's interest set

Any family of channels with distinct descriptors on one poller. Each channel is
new, added or deleted, and its registration state says what the map of the poller
and the kernel hold for its descriptor. An operation on one channel changes only
what belongs to its descriptor.
-/
namespace RyanNetwork.Interest

open Lib Events EpollPoller

set_option autoImplicit false

inductive ChannelOp where
  | enableReading
  | disableReading
  | enableWriting
  | disableWriting
  | disableAll
  | remove
  deriving DecidableEq, Repr

namespace ChannelOp

/-- The mask that the operation leaves on the channel. -/
def mask : ChannelOp → Events → Events
  | enableReading, e => e.or kReadEvent
  | disableReading, e => e.and kReadEvent.not
  | enableWriting, e => e.or kWriteEvent
  | disableWriting, e => e.and kWriteEvent.not
  | disableAll, e => e.and kNoneEvent
  | remove, e => e

def apply : ChannelOp → EpollPoller → Channel → Except Fault (EpollPoller × Channel)
  | enableReading => Channel.enableReading
  | disableReading => Channel.disableReading
  | enableWriting => Channel.enableWriting
  | disableWriting => Channel.disableWriting
  | disableAll => Channel.disableAll
  | remove => Channel.remove

/-- The operations that end in `UpdateChannel` of the channel with its new mask. -/
theorem apply_update {op : ChannelOp} (h : op ≠ remove) (p : EpollPoller) (c : Channel) :
    op.apply p c = p.updateChannel { c with events := op.mask c.events } := by
  cases op with
  | remove => exact absurd rfl h
  | _ => rfl

/-- The `epoll_ctl` call that the operation makes on a channel, if any. -/
def ctl (c : Channel) : ChannelOp → Option CtlOp
  | remove => if c.index = kAdded then some .del else none
  | op =>
    if c.index = kNew ∨ c.index = kDeleted then some .add
    else if op.mask c.events = kNoneEvent then some .del
    else some .mod

/-- `Remove` is for a registered channel without interest. -/
def Allowed (c : Channel) (op : ChannelOp) : Prop :=
  op = remove → c.index ≠ kNew ∧ c.events = kNoneEvent

instance (c : Channel) (op : ChannelOp) : Decidable (op.Allowed c) :=
  inferInstanceAs (Decidable (_ → _))

end ChannelOp

/-- `EPOLL_CTL_ADD` is for an absent descriptor, the other two are for a present one. -/
def Legal : CtlOp → Option Events → Prop
  | .add, e => e = none
  | .mod, e => e ≠ none
  | .del, e => e ≠ none

/-! ## One channel -/

/-- What the poller and the kernel hold for the descriptor of a channel. -/
inductive Registered (p : EpollPoller) (c : Channel) : Prop where
  | new (hi : c.index = kNew) (hc : p.channels c.fd = none) (hk : p.interest c.fd = none)
  | added (hi : c.index = kAdded) (hc : p.channels c.fd = some c.addr)
    (hk : p.interest c.fd = some c.events)
  | deleted (hi : c.index = kDeleted) (hc : p.channels c.fd = some c.addr)
    (hk : p.interest c.fd = none)

/-- `q` differs from `p` only at the descriptor `fd`. -/
def Elsewhere (p q : EpollPoller) (fd : Int) : Prop :=
  ∀ k, k ≠ fd → q.channels k = p.channels k ∧ q.interest k = p.interest k

theorem elsewhere_set (p : EpollPoller) (fd : Int) (a : Option Nat) (e : Option Events) :
    Elsewhere p ((p.setChannel fd a).setInterest fd e) fd :=
  fun _ hk => ⟨Function.update_of_ne hk .., Function.update_of_ne hk ..⟩

theorem elsewhere_setInterest (p : EpollPoller) (fd : Int) (e : Option Events) :
    Elsewhere p (p.setInterest fd e) fd :=
  fun _ hk => ⟨rfl, Function.update_of_ne hk ..⟩

theorem elsewhere_setChannel (p : EpollPoller) (fd : Int) (a : Option Nat) :
    Elsewhere p (p.setChannel fd a) fd :=
  fun _ hk => ⟨Function.update_of_ne hk .., rfl⟩

theorem index_cases {p : EpollPoller} {c : Channel} (h : Registered p c) :
    c.index = kNew ∨ c.index = kAdded ∨ c.index = kDeleted := by
  cases h with
  | new hi => exact Or.inl hi
  | added hi => exact Or.inr (Or.inl hi)
  | deleted hi => exact Or.inr (Or.inr hi)

/-- `UpdateChannel` of a channel whose mask was just changed from `e`. -/
theorem updateChannel_registered {p : EpollPoller} {c : Channel} (e : Events)
    (h : Registered p { c with events := e }) :
    ∃ q d, p.updateChannel c = .ok (q, d) ∧ Registered q d ∧ Elsewhere p q c.fd ∧
      d.fd = c.fd ∧ d.addr = c.addr ∧ d.events = c.events := by
  cases h with
  | new hi hc hk =>
    dsimp only at hi hc hk
    have hup : p.updateChannel c = .ok ((p.setChannel c.fd (some c.addr)).setInterest c.fd
        (some c.events), { c with index := kAdded }) := by
      unfold updateChannel enterChannel
      rw [if_pos (Or.inl hi), if_pos hi, if_pos hc]
      change (update _ .add { c with index := kAdded } >>= _) = _
      simp only [update, setChannel, hk]
      rfl
    refine ⟨_, _, hup, .added rfl ?_ ?_, elsewhere_set _ _ _ _, rfl, rfl, rfl⟩
    · exact Function.update_self ..
    · exact Function.update_self ..
  | added hi hc hk =>
    dsimp only at hi hc hk
    have hreg : ¬(c.index = kNew ∨ c.index = kDeleted) := by
      rw [hi]
      decide
    by_cases hn : c.events = kNoneEvent
    · refine ⟨_, _, updateChannel_unregister hi hc hn, .deleted rfl hc ?_,
        elsewhere_setInterest _ _ _, rfl, rfl, rfl⟩
      exact Function.update_self ..
    · have hnone : ¬(c.isNoneEvent = true) := by simp [Channel.isNoneEvent, hn]
      have hup : p.updateChannel c = .ok (p.setInterest c.fd (some c.events), c) := by
        unfold updateChannel
        rw [if_neg hreg, if_pos ⟨hc, hi⟩, if_neg hnone]
        simp only [update, hk]
        rfl
      refine ⟨_, _, hup, .added hi hc ?_, elsewhere_setInterest _ _ _, rfl, rfl, rfl⟩
      exact Function.update_self ..
  | deleted hi hc hk =>
    dsimp only at hi hc hk
    have hnew : c.index ≠ kNew := by
      rw [hi]
      decide
    have hup : p.updateChannel c = .ok (p.setInterest c.fd (some c.events),
        { c with index := kAdded }) := by
      unfold updateChannel enterChannel
      rw [if_pos (Or.inr hi), if_neg hnew, if_pos hc]
      change (update _ .add { c with index := kAdded } >>= _) = _
      simp only [update, hk]
      rfl
    refine ⟨_, _, hup, .added rfl hc ?_, elsewhere_setInterest _ _ _, rfl, rfl, rfl⟩
    exact Function.update_self ..

theorem removeChannel_registered {p : EpollPoller} {c : Channel} (h : Registered p c)
    (hi : c.index ≠ kNew) (he : c.events = kNoneEvent) :
    ∃ q d, p.removeChannel c = .ok (q, d) ∧ Registered q d ∧ Elsewhere p q c.fd ∧
      d.fd = c.fd ∧ d.addr = c.addr ∧ d.events = c.events := by
  have hnone : c.isNoneEvent = true := by simp [Channel.isNoneEvent, he]
  cases h with
  | new hn => exact absurd hn hi
  | added ha hc hk =>
    have hrem : p.removeChannel c = .ok ((p.setChannel c.fd none).setInterest c.fd none,
        { c with index := kNew }) := by
      unfold removeChannel
      rw [if_pos ⟨hc, hnone, Or.inl ha⟩, if_pos ha, update_del]
      rfl
    refine ⟨_, _, hrem, .new rfl ?_ ?_, elsewhere_set _ _ _ _, rfl, rfl, rfl⟩
    · exact Function.update_self ..
    · exact Function.update_self ..
  | deleted hd hc hk =>
    refine ⟨_, _, removeChannel_deleted hd hc he, .new rfl ?_ hk, elsewhere_setChannel _ _ _, rfl, rfl,
      rfl⟩
    exact Function.update_self ..

/-- Every allowed operation succeeds and leaves the channel in one of the states. -/
theorem apply_registered {p : EpollPoller} {c : Channel} {op : ChannelOp} (h : Registered p c)
    (ha : op.Allowed c) :
    ∃ q d, op.apply p c = .ok (q, d) ∧ Registered q d ∧ Elsewhere p q c.fd ∧
      d.fd = c.fd ∧ d.addr = c.addr ∧ d.events = op.mask c.events := by
  by_cases hop : op = .remove
  · subst hop
    obtain ⟨hi, he⟩ := ha rfl
    exact removeChannel_registered h hi he
  · rw [ChannelOp.apply_update hop]
    exact updateChannel_registered (c := { c with events := op.mask c.events }) c.events h

/-- The `epoll_ctl` call of an allowed operation is legal. -/
theorem ctl_legal {p : EpollPoller} {c : Channel} {op : ChannelOp} (h : Registered p c) :
    ∀ o ∈ op.ctl c, Legal o (p.interest c.fd) := by
  have hupdate (o : CtlOp) (ho : o ∈ if c.index = kNew ∨ c.index = kDeleted then some CtlOp.add
      else if op.mask c.events = kNoneEvent then some .del else some .mod) :
      Legal o (p.interest c.fd) := by
    cases h with
    | new hi _ hk =>
      rw [if_pos (Or.inl hi)] at ho
      cases ho
      exact hk
    | deleted hi _ hk =>
      rw [if_pos (Or.inr hi)] at ho
      cases ho
      exact hk
    | added hi _ hk =>
      rw [if_neg (by rw [hi]; decide)] at ho
      split at ho
      · cases ho
        simp [Legal, hk]
      · cases ho
        simp [Legal, hk]
  intro o ho
  cases op with
  | remove =>
    simp only [ChannelOp.ctl] at ho
    split at ho
    · rename_i hi
      cases ho
      cases h with
      | new hn => exact absurd (hn.symm.trans hi) (by decide)
      | added _ _ hk => simp [Legal, hk]
      | deleted hd => exact absurd (hd.symm.trans hi) (by decide)
    · cases ho
  | _ => exact hupdate o ho

/-- What `ctl` names is what the operation calls: between the bookkeeping before
and after it, the poller makes that call, and no other one changes the kernel's set. -/
theorem apply_ctl {p q : EpollPoller} {c d : Channel} {op : ChannelOp}
    (h : op.apply p c = .ok (q, d)) :
    match op.ctl c with
    | none => q.interest = p.interest
    | some o => ∃ (p' : EpollPoller) (c' : Channel), p'.interest = p.interest ∧ c'.fd = c.fd ∧
        c'.events = op.mask c.events ∧ p'.update o c' = .ok q := by
  by_cases hop : op = .remove
  · subst hop
    change p.removeChannel c = .ok (q, d) at h
    unfold removeChannel at h
    simp only [ChannelOp.ctl]
    split at h
    · split at h
      · rename_i hi
        rw [if_pos hi]
        obtain ⟨p', hp', h⟩ := bind_ok h
        cases h
        exact ⟨p.setChannel c.fd none, c, rfl, rfl, rfl, hp'⟩
      · rename_i hi
        rw [if_neg hi]
        cases h
        rfl
    · cases h
  · rw [ChannelOp.apply_update hop] at h
    have hctl : op.ctl c = if c.index = kNew ∨ c.index = kDeleted then some .add
        else if op.mask c.events = kNoneEvent then some .del else some .mod := by
      cases op with
      | remove => exact absurd rfl hop
      | _ => rfl
    rw [hctl]
    unfold updateChannel at h
    split at h
    · rename_i hi
      rw [if_pos hi]
      obtain ⟨p1, h1, h⟩ := bind_ok h
      obtain ⟨p2, h2, h⟩ := bind_ok h
      cases h
      refine ⟨p1, { c with events := op.mask c.events, index := kAdded }, ?_, rfl, rfl, h2⟩
      unfold enterChannel at h1
      split at h1
      · split at h1
        · cases h1
          rfl
        · cases h1
      · split at h1
        · cases h1
          rfl
        · cases h1
    · rename_i hi
      rw [if_neg hi]
      split at h
      · split at h
        · rename_i hn
          rw [if_pos (by simpa [Channel.isNoneEvent] using hn)]
          obtain ⟨p1, h1, h⟩ := bind_ok h
          cases h
          exact ⟨p, { c with events := op.mask c.events }, rfl, rfl, rfl, h1⟩
        · rename_i hn
          rw [if_neg (by simpa [Channel.isNoneEvent] using hn)]
          obtain ⟨p1, h1, h⟩ := bind_ok h
          cases h
          exact ⟨p, { c with events := op.mask c.events }, rfl, rfl, rfl, h1⟩
      · cases h

/-! ## A family of channels -/

section Family

variable {ι : Type}

/-- A poller and the channels that use it. -/
structure Watch (ι : Type) where
  poller : EpollPoller
  channels : ι → Channel

/-- A new poller and new channels. -/
def Watch.new (addr : ι → Nat) (fd : ι → Int) : Watch ι where
  poller := ⟨fun _ => none, fun _ => none⟩
  channels := fun i => Channel.new (addr i) (fd i)

/-- The poller, its channels and the kernel agree. -/
structure Agrees (w : Watch ι) : Prop where
  isNew : ∀ i, (w.channels i).index = kNew ↔ w.poller.channels (w.channels i).fd = none
  entry : ∀ i, (w.channels i).index = kAdded ∨ (w.channels i).index = kDeleted →
    w.poller.channels (w.channels i).fd = some (w.channels i).addr
  watched : ∀ i, w.poller.interest (w.channels i).fd ≠ none ↔ (w.channels i).index = kAdded
  mask : ∀ i, (w.channels i).index = kAdded →
    w.poller.interest (w.channels i).fd = some (w.channels i).events
  only : ∀ k, (∀ i, (w.channels i).fd ≠ k) →
    w.poller.channels k = none ∧ w.poller.interest k = none

/-- The invariant: distinct descriptors, each channel in one of the three states. -/
structure Settled (w : Watch ι) : Prop where
  distinct : ∀ i j, (w.channels i).fd = (w.channels j).fd → i = j
  registered : ∀ i, Registered w.poller (w.channels i)
  only : ∀ k, (∀ i, (w.channels i).fd ≠ k) →
    w.poller.channels k = none ∧ w.poller.interest k = none

theorem Settled.agrees {w : Watch ι} (h : Settled w) : Agrees w := by
  constructor
  · intro i
    cases h.registered i with
    | new hi hc => simp [hi, hc]
    | added hi hc => simp [hi, hc, kAdded, kNew]
    | deleted hi hc => simp [hi, hc, kDeleted, kNew]
  · intro i hi
    cases h.registered i with
    | new hn => exact absurd (hn ▸ hi) (by decide)
    | added _ hc => exact hc
    | deleted _ hc => exact hc
  · intro i
    cases h.registered i with
    | new hi _ hk => simp [hi, hk, kAdded, kNew]
    | added hi _ hk => simp [hi, hk]
    | deleted hi _ hk => simp [hi, hk, kAdded, kDeleted]
  · intro i hi
    cases h.registered i with
    | new hn => exact absurd (hn.symm.trans hi) (by decide)
    | added _ _ hk => exact hk
    | deleted hd => exact absurd (hd.symm.trans hi) (by decide)
  · exact h.only

theorem settled_new (addr : ι → Nat) {fd : ι → Int} (hfd : Function.Injective fd) :
    Settled (Watch.new addr fd) :=
  ⟨fun _ _ h => hfd h, fun _ => .new rfl rfl rfl, fun _ _ => ⟨rfl, rfl⟩⟩

variable [DecidableEq ι]

def Watch.perform (w : Watch ι) (i : ι) (op : ChannelOp) : Except Fault (Watch ι) := do
  let (p, c) ← op.apply w.poller (w.channels i)
  return ⟨p, Function.update w.channels i c⟩

def Step (w : Watch ι) (a : ι × ChannelOp) (w' : Watch ι) : Prop :=
  a.2.Allowed (w.channels a.1) ∧ w.perform a.1 a.2 = .ok w'

theorem perform_settled {w : Watch ι} {i : ι} {op : ChannelOp} (h : Settled w)
    (ha : op.Allowed (w.channels i)) : ∃ w', w.perform i op = .ok w' ∧ Settled w' ∧
      (∀ j, (w'.channels j).fd = (w.channels j).fd) := by
  obtain ⟨q, d, hok, hd, helse, hfd, -⟩ := apply_registered (h.registered i) ha
  have hsame (j : ι) : (Function.update w.channels i d j).fd = (w.channels j).fd := by
    by_cases hj : j = i
    · subst hj
      rw [Function.update_self, hfd]
    · rw [Function.update_of_ne hj]
  refine ⟨⟨q, Function.update w.channels i d⟩, ?_, ⟨?_, ?_, ?_⟩, hsame⟩
  · unfold Watch.perform
    rw [hok]
    rfl
  · intro j k hjk
    rw [hsame, hsame] at hjk
    exact h.distinct j k hjk
  · intro j
    show Registered q (Function.update w.channels i d j)
    by_cases hj : j = i
    · subst hj
      rw [Function.update_self]
      exact hd
    · rw [Function.update_of_ne hj]
      have hne : (w.channels j).fd ≠ (w.channels i).fd := fun he => hj (h.distinct j i he)
      obtain ⟨hch, hint⟩ := helse _ hne
      cases h.registered j with
      | new hi hc hk => exact .new hi (hch.trans hc) (hint.trans hk)
      | added hi hc hk => exact .added hi (hch.trans hc) (hint.trans hk)
      | deleted hi hc hk => exact .deleted hi (hch.trans hc) (hint.trans hk)
  · intro k hk
    have hold : ∀ j, (w.channels j).fd ≠ k := fun j => hsame j ▸ hk j
    obtain ⟨hch, hint⟩ := helse k (Ne.symm (hold i))
    obtain ⟨hc, hi⟩ := h.only k hold
    exact ⟨hch.trans hc, hint.trans hi⟩

theorem run_settled {w w' : Watch ι} {steps : List (ι × ChannelOp)} (hr : Run Step w steps w')
    (h : Settled w) : Settled w' := by
  refine hr.invariant (P := Settled) ?_ h
  rintro s ⟨i, op⟩ t hs ⟨ha, hp⟩
  obtain ⟨t', hok, ht, -⟩ := perform_settled hs ha
  cases hok.symm.trans hp
  exact ht

/-- After every sequence of operations on channels with distinct descriptors, the
poller and the kernel agree; and whatever comes next, no assertion fails and the
call of `epoll_ctl` is legal. -/
theorem epoll_agrees_with_kernel (addr : ι → Nat) (fd : ι → Int) (hfd : Function.Injective fd)
    {w : Watch ι} {steps : List (ι × ChannelOp)} (hr : Run Step (Watch.new addr fd) steps w) :
    Agrees w ∧ ∀ i op, op.Allowed (w.channels i) →
      (∃ w', w.perform i op = .ok w') ∧
        ∀ o ∈ op.ctl (w.channels i), Legal o (w.poller.interest (w.channels i).fd) := by
  have hs := run_settled hr (settled_new addr hfd)
  constructor
  · exact hs.agrees
  · intro i op ha
    obtain ⟨w', hok, -⟩ := perform_settled hs ha
    exact ⟨⟨w', hok⟩, ctl_legal (hs.registered i)⟩

end Family

/-- Disabling a new channel registers it without interest; it is then removed. -/
theorem epoll_agrees_after_remove :
    ∃ w, Run Step (Watch.new (fun i : Bool => if i then 1 else 2) (fun i => if i then 5 else 6))
        [(true, .disableAll), (false, .enableReading), (true, .remove)] w ∧ Agrees w := by
  have hfd : Function.Injective fun i : Bool => if i then (5 : Int) else 6 := by
    intro i j h
    cases i <;> cases j <;> simp_all
  have hok : (Run.exec (fun (w : Watch Bool) a => a.2.Allowed (w.channels a.1))
      (fun w a => w.perform a.1 a.2)
      (Watch.new (fun i : Bool => if i then 1 else 2) (fun i => if i then 5 else 6))
      [(true, .disableAll), (false, .enableReading), (true, .remove)]).isSome = true := by decide
  obtain ⟨w, hw⟩ := Option.isSome_iff_exists.mp hok
  have hr := Run.of_exec hw
  exact ⟨w, hr, (epoll_agrees_with_kernel _ _ hfd hr).1⟩

end RyanNetwork.Interest

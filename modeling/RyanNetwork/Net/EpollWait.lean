import RyanNetwork.Lib.SizeT
import RyanNetwork.Net.Interest
import Mathlib.Data.List.Forall2

/-!
# `EpollPoller::Poll`

Beside the events of interest the kernel keeps the pointer that `epoll_ctl` gave it for each
descriptor, and `epoll_wait` hands that pointer back. `Poll` trusts it: what it appends to
the active channels is what the kernel says. The result of `epoll_wait` is stored in a
`size_t`, so an error is a very large number; as an `int` again it is `-1`, and the loop of
`FillActiveChannels` makes no turn.
-/
namespace RyanNetwork.Interest

open Lib Events EpollPoller

set_option autoImplicit false

variable {ι : Type}

/-- What `epoll_wait` answers: an error, or the ready descriptors with their events. -/
inductive WaitAnswer where
  | error
  | events (reports : List (Int × Events))
  deriving DecidableEq, Repr

namespace WaitAnswer

def reports : WaitAnswer → List (Int × Events)
  | error => []
  | events rs => rs

/-- The `int` that `epoll_wait` returns. -/
def result : WaitAnswer → Int
  | error => -1
  | events rs => rs.length

end WaitAnswer

def kInitEventListSize : Nat := 16

/-- `data` is the pointer that the kernel holds for a descriptor, `eventsSize` the size of
`events_`; `peak` is ghost: the largest number of events that one `Poll` got. -/
structure EpollLoop (ι : Type) where
  watch : Watch ι
  data : Int → Option ι
  eventsSize : Nat
  revents : ι → Events
  active : List ι
  peak : Nat

namespace EpollLoop

def new (addr : ι → Nat) (fd : ι → Int) : EpollLoop ι where
  watch := Watch.new addr fd
  data := fun _ => none
  eventsSize := kInitEventListSize
  revents := fun _ => kNoneEvent
  active := []
  peak := 0

variable [DecidableEq ι]

/-- The pointer of the descriptor after `epoll_ctl`. -/
def ctlData (data : Int → Option ι) (fd : Int) (i : ι) : Option CtlOp → Int → Option ι
  | some .add | some .mod => Function.update data fd (some i)
  | some .del => Function.update data fd none
  | none => data

def perform (e : EpollLoop ι) (i : ι) (op : ChannelOp) : Except Fault (EpollLoop ι) := do
  let w ← e.watch.perform i op
  let c := e.watch.channels i
  return { e with watch := w, data := ctlData e.data c.fd i (op.ctl c) }

/-- One turn of the loop of `FillActiveChannels`. -/
def activate (e : EpollLoop ι) (i : ι) (r : Events) : EpollLoop ι :=
  { e with revents := Function.update e.revents i r, active := e.active ++ [i] }

/-- The loop of `FillActiveChannels`; a pointer to no channel is a fault. -/
def fillActiveChannels (e : EpollLoop ι) : List (Int × Events) → Except Fault (EpollLoop ι)
  | [] => .ok e
  | (fd, r) :: rs =>
    match e.data fd with
    | some i => (e.activate i r).fillActiveChannels rs
    | none => .error .outOfBounds

/-- `active_channels_.clear()` and `Poll`. -/
def poll (e : EpollLoop ι) (a : WaitAnswer) : Except Fault (EpollLoop ι) :=
  let e := { e with active := [], peak := max e.peak a.reports.length }
  let numEvents := SizeT.ofInt a.result
  if 0 < numEvents then do
    let e ← e.fillActiveChannels (a.reports.take (SizeT.toInt numEvents).toNat)
    if numEvents = e.eventsSize then .ok { e with eventsSize := e.eventsSize * 2 } else .ok e
  else .ok e

/-- What `epoll_wait` may answer: descriptors of the interest set, each once, no more than
asked for, with events that were asked for or are always reported. -/
def Answers (e : EpollLoop ι) : WaitAnswer → Prop
  | .error => True
  | .events rs => rs.length ≤ e.eventsSize ∧ rs.length < 2 ^ 31 ∧ (rs.map Prod.fst).Nodup ∧
      ∀ r ∈ rs, ∃ mask, e.watch.poller.interest r.1 = some mask ∧ r.2 ≠ kNoneEvent ∧
        r.2.and (mask.or ⟨false, false, false, true, true⟩).not = kNoneEvent

end EpollLoop

/-- An operation on a channel, or one `Poll`. -/
inductive EpollAction (ι : Type) where
  | channel (i : ι) (op : ChannelOp)
  | poll (a : WaitAnswer)

variable [DecidableEq ι]

inductive EpollStep : EpollLoop ι → EpollAction ι → EpollLoop ι → Prop where
  | channel {e e' : EpollLoop ι} {i : ι} {op : ChannelOp} (ha : op.Allowed (e.watch.channels i))
      (h : e.perform i op = .ok e') : EpollStep e (.channel i op) e'
  | poll {e e' : EpollLoop ι} {a : WaitAnswer} (ha : e.Answers a) (h : e.poll a = .ok e') :
      EpollStep e (.poll a) e'

/-- The kernel has a pointer for each descriptor of the interest set, and it is the pointer
to a channel of that descriptor. -/
structure Pointed (e : EpollLoop ι) : Prop where
  settled : Settled e.watch
  data : ∀ fd, (e.data fd).isSome = (e.watch.poller.interest fd).isSome
  owner : ∀ fd i, e.data fd = some i → (e.watch.channels i).fd = fd
  size : e.eventsSize = kInitEventListSize ∨ e.eventsSize ≤ 2 * e.peak
  peak : e.peak < 2 ^ 31

omit [DecidableEq ι] in
theorem pointed_new (addr : ι → Nat) {fd : ι → Int} (hfd : Function.Injective fd) :
    Pointed (EpollLoop.new addr fd) where
  settled := settled_new addr hfd
  data := fun _ => rfl
  owner := fun _ _ h => nomatch h
  size := .inl rfl
  peak := Nat.two_pow_pos 31

/-! ## Operations on channels -/

/-- What the kernel holds for the descriptor of the channel after a successful `Update`. -/
def ctlInterest (e : Events) : CtlOp → Option Events
  | .add | .mod => some e
  | .del => none

theorem update_interest {p q : EpollPoller} {o : CtlOp} {c : Channel} (h : p.update o c = .ok q) :
    q.interest = Function.update p.interest c.fd (ctlInterest c.events o) := by
  unfold EpollPoller.update at h
  split at h
  · cases h
    rfl
  · cases h
  · cases h
    rfl
  · cases h
  · cases h
    rfl
  · rename_i hi
    cases h
    exact (Function.update_eq_self_iff.mpr hi.symm).symm

omit [DecidableEq ι] in
/-- The kernel has a pointer exactly for the descriptors it watches. -/
theorem ctlData_isSome {p q : EpollPoller} {c d : Channel} {op : ChannelOp}
    {data : Int → Option ι} (i : ι) (h : op.apply p c = .ok (q, d))
    (hd : ∀ k, (data k).isSome = (p.interest k).isSome) (k : Int) :
    (EpollLoop.ctlData data c.fd i (op.ctl c) k).isSome = (q.interest k).isSome := by
  have hc := apply_ctl h
  cases hop : op.ctl c with
  | none =>
    simp only [hop] at hc
    rw [hc]
    exact hd k
  | some o =>
    simp only [hop] at hc
    obtain ⟨p', c', hp, hfd, -, hu⟩ := hc
    rw [update_interest hu, hp, hfd]
    by_cases hk : k = c.fd
    · subst hk
      cases o <;> simp [EpollLoop.ctlData, ctlInterest]
    · rw [Function.update_of_ne hk, ← hd k]
      cases o <;> simp [EpollLoop.ctlData, Function.update_of_ne hk]

omit [DecidableEq ι] in
/-- A pointer that the kernel holds after an operation was there before, or is the pointer
to the channel of the operation. -/
theorem ctlData_eq_some {data : Int → Option ι} {fd k : Int} {i j : ι} {o : Option CtlOp}
    (h : EpollLoop.ctlData data fd i o k = some j) : data k = some j ∨ (k = fd ∧ j = i) := by
  cases o with
  | none => exact .inl h
  | some o =>
    by_cases hk : k = fd
    · subst hk
      cases o with
      | del => simp [EpollLoop.ctlData] at h
      | add => exact .inr ⟨rfl, by simpa [EpollLoop.ctlData, eq_comm] using h⟩
      | mod => exact .inr ⟨rfl, by simpa [EpollLoop.ctlData, eq_comm] using h⟩
    · refine .inl ?_
      cases o <;> simpa [EpollLoop.ctlData, Function.update_of_ne hk] using h

theorem perform_pointed {e : EpollLoop ι} {i : ι} {op : ChannelOp} (h : Pointed e)
    (ha : op.Allowed (e.watch.channels i)) : ∃ e', e.perform i op = .ok e' ∧ Pointed e' := by
  obtain ⟨w, hw, hs, hfd⟩ := perform_settled h.settled ha
  have hok : e.perform i op = .ok { e with
      watch := w
      data := EpollLoop.ctlData e.data (e.watch.channels i).fd i (op.ctl (e.watch.channels i)) } := by
    rw [EpollLoop.perform, hw]
    rfl
  refine ⟨_, hok, hs, ?_, ?_, h.size, h.peak⟩
  · obtain ⟨q, d, happ, -⟩ := apply_registered (h.settled.registered i) ha
    have hq : w.poller = q := by
      rw [Watch.perform, happ] at hw
      cases hw
      rfl
    rw [hq]
    exact ctlData_isSome i happ h.data
  · intro k j hj
    rw [hfd]
    obtain hold | ⟨rfl, rfl⟩ := ctlData_eq_some hj
    · exact h.owner k j hold
    · rfl

/-! ## One `Poll` -/

omit [DecidableEq ι] in
theorem fds_of_data {e : EpollLoop ι} (h : Pointed e) {rs : List (Int × Events)} {is : List ι}
    (hall : List.Forall₂ (fun r i => e.data r.1 = some i) rs is) :
    is.map (fun i => (e.watch.channels i).fd) = rs.map Prod.fst := by
  induction hall with
  | nil => rfl
  | cons hd _ ih => rw [List.map_cons, List.map_cons, ih, h.owner _ _ hd]

/-- The loop of `FillActiveChannels` over events whose pointers the kernel holds. -/
theorem fillActiveChannels_delivers {rs : List (Int × Events)} (hn : (rs.map Prod.fst).Nodup) :
    ∀ {e : EpollLoop ι}, Pointed e → (∀ r ∈ rs, (e.data r.1).isSome) →
    ∃ e' is, e.fillActiveChannels rs = .ok e' ∧
      e' = { e with revents := e'.revents, active := e.active ++ is } ∧
      List.Forall₂ (fun r i => e.data r.1 = some i ∧ e'.revents i = r.2) rs is ∧
      ∀ j ∉ is, e'.revents j = e.revents j := by
  induction rs with
  | nil =>
    intro e _ _
    refine ⟨e, [], rfl, ?_, .nil, fun _ _ => rfl⟩
    rw [List.append_nil]
  | cons r rs ih =>
    intro e h hr
    obtain ⟨fd, v⟩ := r
    rw [List.map_cons, List.nodup_cons] at hn
    obtain ⟨i, hi⟩ := Option.isSome_iff_exists.mp (hr _ (List.mem_cons_self ..))
    have ht : Pointed (e.activate i v) := ⟨h.settled, h.data, h.owner, h.size, h.peak⟩
    obtain ⟨e', is, hok, he, hall, hrest⟩ := ih hn.2 ht fun r hm => hr r (List.mem_cons_of_mem _ hm)
    have hfresh : i ∉ is := by
      intro hmem
      have hfds := fds_of_data ht (hall.imp fun _ _ hd => hd.1)
      have hfd : (e.watch.channels i).fd = fd := h.owner _ _ hi
      refine hn.1 (hfds ▸ hfd ▸ ?_)
      exact List.mem_map_of_mem hmem
    refine ⟨e', i :: is, ?_, ?_, .cons ⟨hi, ?_⟩ hall, ?_⟩
    · rw [EpollLoop.fillActiveChannels, hi]
      exact hok
    · rw [he]
      simp [EpollLoop.activate]
    · rw [hrest i hfresh]
      exact Function.update_self ..
    · intro j hj
      rw [List.mem_cons, not_or] at hj
      rw [hrest j hj.2]
      exact Function.update_of_ne hj.1 ..

/-- The number of turns that `FillActiveChannels` makes is the number of events: none after
an error. -/
theorem take_reports {a : WaitAnswer} (h : a.reports.length < 2 ^ 31) :
    a.reports.take (SizeT.toInt (SizeT.ofInt a.result)).toNat = a.reports := by
  cases a with
  | error => exact List.take_nil
  | events rs =>
    have hr : SizeT.toInt (SizeT.ofInt (WaitAnswer.events rs).result) = rs.length :=
      SizeT.toInt_ofInt (by simp only [WaitAnswer.result]; omega)
        (by simp only [WaitAnswer.result, WaitAnswer.reports] at h ⊢; omega)
    rw [hr, Int.toNat_natCast]
    exact List.take_length

omit [DecidableEq ι] in
theorem size_bound {e : EpollLoop ι} (h : Pointed e) : e.eventsSize < 2 ^ 32 := by
  have hp := h.peak
  obtain hs | hs := h.size
  · rw [hs, kInitEventListSize]
    omega
  · omega

omit [DecidableEq ι] in
/-- The comparison of the `size_t` with the size of `events_` is one of the `int`: an error
never doubles the events. -/
theorem ofInt_result_eq_size {e : EpollLoop ι} {a : WaitAnswer} (h : Pointed e)
    (ha : a.reports.length < 2 ^ 31) :
    SizeT.ofInt a.result = e.eventsSize ↔ a.result = e.eventsSize := by
  have hs := size_bound h
  cases a with
  | error =>
    rw [WaitAnswer.result, SizeT.ofInt_neg_one]
    omega
  | events rs =>
    rw [WaitAnswer.reports] at ha
    rw [WaitAnswer.result, SizeT.ofInt_natCast (by omega)]
    omega

omit [DecidableEq ι] in
/-- An answer without events makes no turn whether or not `num_events > 0`. -/
theorem reports_nil {a : WaitAnswer} (ha : a.reports.length < 2 ^ 31)
    (h : ¬0 < SizeT.ofInt a.result) : a = .events [] := by
  cases a with
  | error =>
    rw [WaitAnswer.result, SizeT.ofInt_neg_one] at h
    omega
  | events rs =>
    rw [WaitAnswer.reports] at ha
    rw [WaitAnswer.result, SizeT.ofInt_natCast (by omega)] at h
    have hl : rs.length = 0 := by omega
    rw [List.eq_nil_of_length_eq_zero hl]

namespace EpollLoop

omit [DecidableEq ι] in
theorem Answers.length {e : EpollLoop ι} {a : WaitAnswer} (h : e.Answers a) :
    a.reports.length < 2 ^ 31 := by
  cases a with
  | error => exact Nat.two_pow_pos 31
  | events rs => exact h.2.1

omit [DecidableEq ι] in
theorem Answers.nodup {e : EpollLoop ι} {a : WaitAnswer} (h : e.Answers a) :
    (a.reports.map Prod.fst).Nodup := by
  cases a with
  | error => exact List.nodup_nil
  | events rs => exact h.2.2.1

omit [DecidableEq ι] in
theorem Answers.asked {e : EpollLoop ι} {a : WaitAnswer} (h : e.Answers a) :
    ∀ r ∈ a.reports, ∃ mask, e.watch.poller.interest r.1 = some mask ∧ r.2 ≠ kNoneEvent ∧
      r.2.and (mask.or ⟨false, false, false, true, true⟩).not = kNoneEvent := by
  cases a with
  | error => exact fun _ hr => nomatch hr
  | events rs => exact h.2.2.2

end EpollLoop

/-- What an allowed answer leaves in the poller. -/
theorem poll_delivers {e : EpollLoop ι} {a : WaitAnswer} (h : Pointed e) (ha : e.Answers a) :
    ∃ e', e.poll a = .ok e' ∧ e'.watch = e.watch ∧ e'.data = e.data ∧
      e'.peak = max e.peak a.reports.length ∧
      e'.eventsSize = (if a.result = e.eventsSize then e.eventsSize * 2 else e.eventsSize) ∧
      List.Forall₂ (fun r i => e.data r.1 = some i ∧ e'.revents i = r.2) a.reports e'.active ∧
      ∀ j ∉ e'.active, e'.revents j = e.revents j := by
  have hpos := ofInt_result_eq_size h ha.length
  by_cases hn : 0 < SizeT.ofInt a.result
  · have hp : Pointed { e with active := [], peak := max e.peak a.reports.length } :=
      ⟨h.settled, h.data, h.owner, h.size.imp_right fun hs => by simp only; omega,
        max_lt h.peak ha.length⟩
    have hdata : ∀ r ∈ a.reports, (e.data r.1).isSome := by
      intro r hr
      obtain ⟨mask, hm, -⟩ := ha.asked r hr
      rw [h.data, hm]
      rfl
    obtain ⟨e₁, is, hok, he, hall, hrest⟩ := fillActiveChannels_delivers ha.nodup hp hdata
    have hact : e₁.active = is := by rw [he]; rfl
    have hsize : e₁.eventsSize = e.eventsSize := by rw [he]
    have hpoll : e.poll a = if a.result = e.eventsSize
        then .ok { e₁ with eventsSize := e₁.eventsSize * 2 } else .ok e₁ := by
      simp only [EpollLoop.poll, if_pos hn, take_reports ha.length, hok]
      simp only [bind, Except.bind, hsize, hpos]
    rw [hpoll]
    split
    · refine ⟨_, rfl, ?_⟩
      rw [hact, hsize]
      exact ⟨by rw [he], by rw [he], by rw [he], rfl, hall, hrest⟩
    · refine ⟨_, rfl, ?_⟩
      rw [hact]
      exact ⟨by rw [he], by rw [he], by rw [he], hsize, hall, hrest⟩
  · obtain rfl := reports_nil ha.length hn
    refine ⟨{ e with active := [], peak := max e.peak 0 }, if_neg hn, rfl, rfl, rfl, ?_, .nil,
      fun _ _ => rfl⟩
    split
    · rename_i hz
      simp only [WaitAnswer.result, List.length_nil] at hz
      simp only
      omega
    · rfl

theorem poll_pointed {e e' : EpollLoop ι} {a : WaitAnswer} (h : Pointed e) (ha : e.Answers a)
    (hp : e.poll a = .ok e') : Pointed e' := by
  obtain ⟨e₁, hok, hw, hd, hpeak, hsize, -⟩ := poll_delivers h ha
  cases hok.symm.trans hp
  refine ⟨hw ▸ h.settled, ?_, ?_, ?_, ?_⟩
  · rw [hd, hw]
    exact h.data
  · rw [hd, hw]
    exact h.owner
  · rw [hpeak, hsize]
    split
    · rename_i hr
      right
      cases a with
      | error =>
        simp only [WaitAnswer.result] at hr
        omega
      | events rs =>
        simp only [WaitAnswer.result, WaitAnswer.reports] at hr ⊢
        omega
    · exact h.size.imp_right fun hs => by omega
  · rw [hpeak]
    exact max_lt h.peak ha.length

theorem run_pointed {e e' : EpollLoop ι} {acts : List (EpollAction ι)}
    (hr : Run EpollStep e acts e') (h : Pointed e) : Pointed e' := by
  refine hr.invariant (P := Pointed) ?_ h
  intro s a t hs hstep
  cases hstep with
  | channel ha hp =>
    obtain ⟨t', hok, ht⟩ := perform_pointed hs ha
    cases hok.symm.trans hp
    exact ht
  | poll ha hp => exact poll_pointed hs ha hp

/-- What a channel finds when it is made active: an event of its own descriptor, and only
bits that it asked for or that are always reported. -/
structure Delivered (e e' : EpollLoop ι) (r : Int × Events) (i : ι) : Prop where
  fd : (e.watch.channels i).fd = r.1
  added : (e.watch.channels i).index = kAdded
  revents : e'.revents i = r.2
  asked : r.2.and ((e.watch.channels i).events.or ⟨false, false, false, true, true⟩).not =
    kNoneEvent

omit [DecidableEq ι] in
/-- The channel behind the pointer of a watched descriptor is added, and the kernel's mask is
its own. -/
theorem delivered {e e' : EpollLoop ι} {r : Int × Events} {i : ι} {mask : Events} (h : Pointed e)
    (hi : e.data r.1 = some i) (hm : e.watch.poller.interest r.1 = some mask)
    (hbits : r.2.and (mask.or ⟨false, false, false, true, true⟩).not = kNoneEvent)
    (hre : e'.revents i = r.2) : Delivered e e' r i := by
  have hfd := h.owner _ _ hi
  have hagrees := h.settled.agrees
  have hadded : (e.watch.channels i).index = kAdded :=
    (hagrees.watched i).mp (by rw [hfd, hm]; exact Option.some_ne_none _)
  have hmask : (e.watch.channels i).events = mask := by
    have hk := hagrees.mask i hadded
    rw [hfd, hm] at hk
    exact (Option.some.inj hk).symm
  exact ⟨hfd, hadded, hre, hmask ▸ hbits⟩

/-- After every sequence of channel operations and polls, whatever `epoll_wait` answers,
`Poll` follows no dangling pointer: the active channels are the added channels of the
reported descriptors, each once, in the order of the report, with the reported events; no
other channel's `revents_` changes, and an error activates nothing. `events_` holds sixteen
entries or at most twice what one `Poll` ever got. -/
theorem poll_dispatches (addr : ι → Nat) (fd : ι → Int) (hfd : Function.Injective fd)
    {e : EpollLoop ι} {acts : List (EpollAction ι)}
    (hr : Run EpollStep (EpollLoop.new addr fd) acts e) {a : WaitAnswer} (ha : e.Answers a) :
    ∃ e', e.poll a = .ok e' ∧ e'.watch = e.watch ∧ e'.active.Nodup ∧
      List.Forall₂ (Delivered e e') a.reports e'.active ∧
      (∀ j ∉ e'.active, e'.revents j = e.revents j) ∧
      (e'.eventsSize = kInitEventListSize ∨ e'.eventsSize ≤ 2 * e'.peak) := by
  have h := run_pointed hr (pointed_new addr hfd)
  obtain ⟨e', hok, hw, hd, hpeak, hsize, hall, hrest⟩ := poll_delivers h ha
  have hfds := fds_of_data h (hall.imp fun _ _ hd => hd.1)
  refine ⟨e', hok, hw, ?_, ?_, hrest, (poll_pointed h ha hok).size⟩
  · exact List.Pairwise.of_map _ (fun _ _ hne he => hne (he ▸ rfl)) (hfds ▸ ha.nodup)
  · refine ((List.forall₂_and_left _ _).mpr ⟨ha.asked, hall⟩).imp ?_
    rintro r i ⟨⟨mask, hm, -, hbits⟩, hi, hre⟩
    exact delivered h hi hm hbits hre

/-- A reader and a writer; the first `Poll` fails, the second one reports both. -/
theorem poll_dispatches_two :
    ∃ e e', Run EpollStep (EpollLoop.new (fun _ : Bool => 1) fun i => if i then 5 else 6)
        [.channel true .enableReading, .channel false .enableWriting, .poll .error] e ∧
      e.poll (.events [(6, kWriteEvent), (5, ⟨true, false, false, false, true⟩)]) = .ok e' ∧
      List.Forall₂ (Delivered e e') [(6, kWriteEvent), (5, ⟨true, false, false, false, true⟩)]
        e'.active := by
  have hfd : Function.Injective fun i : Bool => if i then (5 : Int) else 6 := by
    intro i j h
    cases i <;> cases j <;> simp_all
  have hr : Run EpollStep (EpollLoop.new (fun _ : Bool => 1) fun i => if i then 5 else 6)
      [.channel true .enableReading, .channel false .enableWriting, .poll .error] _ :=
    .cons (.channel (by decide) rfl) (.cons (.channel (by decide) rfl)
      (.cons (.poll trivial (by with_unfolding_all rfl)) (.nil _)))
  obtain ⟨e', hok, -, -, hall, -⟩ := poll_dispatches (fun _ => 1) _ hfd hr
    (a := .events [(6, kWriteEvent), (5, ⟨true, false, false, false, true⟩)])
    ⟨by decide, by decide, by decide, by
      intro r hr
      obtain rfl | rfl := List.mem_pair.mp hr
      · exact ⟨kWriteEvent, rfl, by decide, rfl⟩
      · exact ⟨kReadEvent, rfl, by decide, rfl⟩⟩
  exact ⟨_, e', hr, hok, hall⟩

end RyanNetwork.Interest

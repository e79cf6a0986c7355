import Mathlib.Logic.Function.Basic
import RyanNetwork.Lib.Outcome
import RyanNetwork.Buffer.Model

/-!
# `Channel` and `EpollPoller`

A channel is a descriptor with its events of interest and its registration
index. The poller keeps the map from descriptors to channels; next to it stands
the kernel's interest set, which only `epoll_ctl` changes. A failed assertion
and the abort after a refused `EPOLL_CTL_ADD` or `EPOLL_CTL_MOD` are faults.
-/
namespace RyanNetwork

open Lib

set_option autoImplicit false

/-- A combination of `EPOLLIN`, `EPOLLPRI`, `EPOLLOUT`, `EPOLLERR` and `EPOLLHUP`. -/
structure Events where
  epollin : Bool
  epollpri : Bool
  epollout : Bool
  epollerr : Bool
  epollhup : Bool
  deriving DecidableEq, Repr

namespace Events

def kNoneEvent : Events := ⟨false, false, false, false, false⟩

def kReadEvent : Events := ⟨true, true, false, false, false⟩

def kWriteEvent : Events := ⟨false, false, true, false, false⟩

/-- `a | b`. -/
def or (a b : Events) : Events :=
  ⟨a.epollin || b.epollin, a.epollpri || b.epollpri, a.epollout || b.epollout,
    a.epollerr || b.epollerr, a.epollhup || b.epollhup⟩

/-- `a & b`. -/
def and (a b : Events) : Events :=
  ⟨a.epollin && b.epollin, a.epollpri && b.epollpri, a.epollout && b.epollout,
    a.epollerr && b.epollerr, a.epollhup && b.epollhup⟩

/-- `~a`. -/
def not (a : Events) : Events :=
  ⟨!a.epollin, !a.epollpri, !a.epollout, !a.epollerr, !a.epollhup⟩

end Events

open Events

def kNew : Int := -1

def kAdded : Int := 1

def kDeleted : Int := 2

/-- `addr` is the channel's own address, what `channels_` stores. -/
structure Channel where
  addr : Nat
  fd : Int
  events : Events
  index : Int
  deriving DecidableEq, Repr

namespace Channel

/-- `Channel(loop, fd)`. -/
def new (addr : Nat) (fd : Int) : Channel := ⟨addr, fd, kNoneEvent, kNew⟩

def isNoneEvent (c : Channel) : Bool := c.events = kNoneEvent

def isWriting (c : Channel) : Bool := c.events.and kWriteEvent ≠ kNoneEvent

def isReading (c : Channel) : Bool := c.events.and kReadEvent ≠ kNoneEvent

end Channel

/-- `channels_` and the kernel's interest set of `epollfd_`. -/
structure EpollPoller where
  channels : Int → Option Nat
  interest : Int → Option Events

namespace EpollPoller

inductive CtlOp where
  | add
  | mod
  | del
  deriving DecidableEq, Repr

def setInterest (p : EpollPoller) (fd : Int) (e : Option Events) : EpollPoller :=
  { p with interest := Function.update p.interest fd e }

def setChannel (p : EpollPoller) (fd : Int) (c : Option Nat) : EpollPoller :=
  { p with channels := Function.update p.channels fd c }

/-- `Update(operation, channel)`: a refused `EPOLL_CTL_DEL` is only logged. -/
def update (p : EpollPoller) (operation : CtlOp) (c : Channel) : Except Fault EpollPoller :=
  match operation, p.interest c.fd with
  | .add, none => .ok (p.setInterest c.fd (some c.events))
  | .add, some _ => .error .fatal
  | .mod, some _ => .ok (p.setInterest c.fd (some c.events))
  | .mod, none => .error .fatal
  | .del, some _ => .ok (p.setInterest c.fd none)
  | .del, none => .ok p

/-- The bookkeeping of `UpdateChannel` for a channel that is new or deleted. -/
def enterChannel (p : EpollPoller) (c : Channel) : Except Fault EpollPoller :=
  if c.index = kNew then
    if p.channels c.fd = none then .ok (p.setChannel c.fd (some c.addr)) else .error .assertion
  else
    if p.channels c.fd = some c.addr then .ok p else .error .assertion

def updateChannel (p : EpollPoller) (c : Channel) : Except Fault (EpollPoller × Channel) :=
  if c.index = kNew ∨ c.index = kDeleted then do
    let p ← p.enterChannel c
    let p ← p.update .add { c with index := kAdded }
    return (p, { c with index := kAdded })
  else if p.channels c.fd = some c.addr ∧ c.index = kAdded then
    if c.isNoneEvent then do
      let p ← p.update .del c
      return (p, { c with index := kDeleted })
    else do
      let p ← p.update .mod c
      return (p, c)
  else .error .assertion

def removeChannel (p : EpollPoller) (c : Channel) : Except Fault (EpollPoller × Channel) :=
  if p.channels c.fd = some c.addr ∧ c.isNoneEvent ∧ (c.index = kAdded ∨ c.index = kDeleted) then
    if c.index = kAdded then do
      let p ← (p.setChannel c.fd none).update .del c
      return (p, { c with index := kNew })
    else .ok (p.setChannel c.fd none, { c with index := kNew })
  else .error .assertion

end EpollPoller

namespace Channel

def enableReading (p : EpollPoller) (c : Channel) : Except Fault (EpollPoller × Channel) :=
  p.updateChannel { c with events := c.events.or kReadEvent }

def disableReading (p : EpollPoller) (c : Channel) : Except Fault (EpollPoller × Channel) :=
  p.updateChannel { c with events := c.events.and kReadEvent.not }

def enableWriting (p : EpollPoller) (c : Channel) : Except Fault (EpollPoller × Channel) :=
  p.updateChannel { c with events := c.events.or kWriteEvent }

def disableWriting (p : EpollPoller) (c : Channel) : Except Fault (EpollPoller × Channel) :=
  p.updateChannel { c with events := c.events.and kWriteEvent.not }

def disableAll (p : EpollPoller) (c : Channel) : Except Fault (EpollPoller × Channel) :=
  p.updateChannel { c with events := c.events.and kNoneEvent }

def remove (p : EpollPoller) (c : Channel) : Except Fault (EpollPoller × Channel) :=
  p.removeChannel c

end Channel

namespace EpollPoller

theorem update_add_ok {p q : EpollPoller} {c : Channel} (h : p.update .add c = .ok q) :
    p.interest c.fd = none ∧ q = p.setInterest c.fd (some c.events) := by
  cases hi : p.interest c.fd with
  | none =>
    simp only [update, hi] at h
    cases h
    exact ⟨rfl, rfl⟩
  | some e =>
    simp only [update, hi] at h
    cases h

theorem update_mod_ok {p q : EpollPoller} {c : Channel} (h : p.update .mod c = .ok q) :
    p.interest c.fd ≠ none ∧ q = p.setInterest c.fd (some c.events) := by
  cases hi : p.interest c.fd with
  | none =>
    simp only [update, hi] at h
    cases h
  | some e =>
    simp only [update, hi] at h
    cases h
    exact ⟨by simp, rfl⟩

/-- A refused deletion leaves the set as it was: the descriptor was not in it. -/
theorem update_del (p : EpollPoller) (c : Channel) :
    p.update .del c = .ok (p.setInterest c.fd none) := by
  cases hi : p.interest c.fd with
  | none =>
    simp only [update, hi, setInterest]
    rw [← hi, Function.update_eq_self]
  | some e => simp only [update, hi]

/-- Everything a successful `UpdateChannel` can do: register a new or a deleted
channel, unregister one without interest, or replace the mask of one with. -/
theorem updateChannel_cases {p q : EpollPoller} {c d : Channel}
    (h : p.updateChannel c = .ok (q, d)) :
    (c.index = kNew ∧ p.channels c.fd = none ∧ p.interest c.fd = none ∧
      q = (p.setChannel c.fd (some c.addr)).setInterest c.fd (some c.events) ∧
      d = { c with index := kAdded }) ∨
    (c.index = kDeleted ∧ p.channels c.fd = some c.addr ∧ p.interest c.fd = none ∧
      q = p.setInterest c.fd (some c.events) ∧ d = { c with index := kAdded }) ∨
    (c.index = kAdded ∧ p.channels c.fd = some c.addr ∧ c.events = kNoneEvent ∧
      q = p.setInterest c.fd none ∧ d = { c with index := kDeleted }) ∨
    (c.index = kAdded ∧ p.channels c.fd = some c.addr ∧ c.events ≠ kNoneEvent ∧
      p.interest c.fd ≠ none ∧ q = p.setInterest c.fd (some c.events) ∧ d = c) := by
  unfold updateChannel at h
  split at h
  · rename_i hi
    obtain ⟨p1, h1, h⟩ := bind_ok h
    obtain ⟨p2, h2, h⟩ := bind_ok h
    cases h
    obtain ⟨hnone, rfl⟩ := update_add_ok h2
    unfold enterChannel at h1
    split at h1
    · rename_i hnew
      split at h1
      · rename_i hfree
        cases h1
        exact Or.inl ⟨hnew, hfree, hnone, rfl, rfl⟩
      · cases h1
    · rename_i hnew
      split at h1
      · rename_i hown
        cases h1
        exact Or.inr (Or.inl ⟨hi.resolve_left hnew, hown, hnone, rfl, rfl⟩)
      · cases h1
  · split at h
    · rename_i hreg
      split at h
      · rename_i hnone
        rw [update_del] at h
        cases h
        exact Or.inr (Or.inr (Or.inl ⟨hreg.2, hreg.1, by simpa [Channel.isNoneEvent] using hnone,
          rfl, rfl⟩))
      · rename_i hsome
        obtain ⟨p1, h1, h⟩ := bind_ok h
        cases h
        obtain ⟨hin, rfl⟩ := update_mod_ok h1
        exact Or.inr (Or.inr (Or.inr ⟨hreg.2, hreg.1, by simpa [Channel.isNoneEvent] using hsome,
          hin, rfl, rfl⟩))
    · cases h

/-- `UpdateChannel` keeps the channel apart from its index. -/
theorem updateChannel_keeps {p q : EpollPoller} {c d : Channel}
    (h : p.updateChannel c = .ok (q, d)) :
    d.addr = c.addr ∧ d.fd = c.fd ∧ d.events = c.events := by
  rcases updateChannel_cases h with h | h | h | h
  · rw [h.2.2.2.2]
    exact ⟨rfl, rfl, rfl⟩
  · rw [h.2.2.2.2]
    exact ⟨rfl, rfl, rfl⟩
  · rw [h.2.2.2.2]
    exact ⟨rfl, rfl, rfl⟩
  · rw [h.2.2.2.2.2]
    exact ⟨rfl, rfl, rfl⟩

/-- After `UpdateChannel` a descriptor is watched only for a channel marked as added. -/
theorem updateChannel_linked {p q : EpollPoller} {c d : Channel}
    (h : p.updateChannel c = .ok (q, d)) (hw : q.interest d.fd ≠ none) : d.index = kAdded := by
  rcases updateChannel_cases h with h | h | h | h
  · rw [h.2.2.2.2]
  · rw [h.2.2.2.2]
  · obtain ⟨-, -, -, rfl, rfl⟩ := h
    exact absurd (Function.update_self ..) hw
  · rw [h.2.2.2.2.2]
    exact h.1

/-- A registered channel without interest left is taken out of the kernel's set. -/
theorem updateChannel_unregister {p : EpollPoller} {c : Channel} (hi : c.index = kAdded)
    (ho : p.channels c.fd = some c.addr) (he : c.events = kNoneEvent) :
    p.updateChannel c = .ok (p.setInterest c.fd none, { c with index := kDeleted }) := by
  have hreg : ¬(c.index = kNew ∨ c.index = kDeleted) := by
    rw [hi]
    decide
  have hnone : c.isNoneEvent = true := by simp [Channel.isNoneEvent, he]
  unfold updateChannel
  rw [if_neg hreg, if_pos ⟨ho, hi⟩, if_pos hnone, update_del]
  rfl

/-- `RemoveChannel` of a channel that `UpdateChannel` has already unregistered. -/
theorem removeChannel_deleted {p : EpollPoller} {c : Channel} (hi : c.index = kDeleted)
    (ho : p.channels c.fd = some c.addr) (he : c.events = kNoneEvent) :
    p.removeChannel c = .ok (p.setChannel c.fd none, { c with index := kNew }) := by
  have hnone : c.isNoneEvent = true := by simp [Channel.isNoneEvent, he]
  have hadded : c.index ≠ kAdded := by
    rw [hi]
    decide
  unfold removeChannel
  rw [if_pos ⟨ho, hnone, Or.inr hi⟩, if_neg hadded]

/-- `RemoveChannel` touches neither the mask nor an unwatched descriptor. -/
theorem removeChannel_keeps {p q : EpollPoller} {c d : Channel}
    (h : p.removeChannel c = .ok (q, d)) (hn : p.interest c.fd = none) :
    d.fd = c.fd ∧ d.events = c.events ∧ q.interest c.fd = none := by
  unfold removeChannel at h
  split at h
  · split at h
    · rw [update_del] at h
      cases h
      exact ⟨rfl, rfl, Function.update_self ..⟩
    · cases h
      exact ⟨rfl, rfl, hn⟩
  · cases h

/-- `RemoveChannel` asserts that the channel has no event of interest left. -/
theorem removeChannel_interested {p : EpollPoller} {c : Channel} (he : c.events ≠ kNoneEvent) :
    p.removeChannel c = .error .assertion := by
  have hsome : ¬(c.isNoneEvent = true) := by simp [Channel.isNoneEvent, he]
  unfold removeChannel
  rw [if_neg (fun h => hsome h.2.1)]

end EpollPoller

end RyanNetwork

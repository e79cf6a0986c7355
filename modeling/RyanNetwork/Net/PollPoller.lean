import RyanNetwork.Net.Interest

/-!
# `PollPoller`

The poller over `poll(2)`. A channel's index is its place in the array given to
`poll`; a channel without interest keeps its place, with the negated descriptor
that `poll` ignores. Removing a channel moves the last place into the gap, so an
operation on one channel may change the index of another: the channels belong to
the state, and `ι` stands for their addresses.
-/
namespace RyanNetwork

open Lib Events Interest

set_option autoImplicit false

/-- `struct pollfd` without `revents`, which every update clears. -/
structure PollFd where
  fd : Int
  events : Events
  deriving DecidableEq, Repr

/-- The descriptor that stands for `fd` while it is ignored, and back. -/
def negated (fd : Int) : Int := -fd - 1

theorem negated_neg {fd : Int} (h : 0 ≤ fd) : negated fd < 0 := by
  unfold negated
  omega

theorem negated_negated (fd : Int) : negated (negated fd) = fd := by
  unfold negated
  omega

structure PollPoller (ι : Type) where
  channels : Int → Option ι
  pollFds : List PollFd

/-- A poller and the channels that use it. -/
structure PollWatch (ι : Type) where
  poller : PollPoller ι
  channels : ι → Channel

namespace PollWatch

variable {ι : Type}

/-- A new poller and new channels. -/
def new (addr : ι → Nat) (fd : ι → Int) : PollWatch ι where
  poller := ⟨fun _ => none, []⟩
  channels := fun i => Channel.new (addr i) (fd i)

variable [DecidableEq ι]

def setChannel (w : PollWatch ι) (i : ι) (c : Channel) : PollWatch ι :=
  { w with channels := Function.update w.channels i c }

/-- The new entry of `UpdateChannel` for a channel with a negative index. -/
def pushFd (w : PollWatch ι) (i : ι) : PollWatch ι :=
  let c := w.channels i
  setChannel ⟨⟨Function.update w.poller.channels c.fd (some i),
    w.poller.pollFds ++ [⟨c.fd, c.events⟩]⟩, w.channels⟩ i
    { c with index := w.poller.pollFds.length }

/-- The entry that `UpdateChannel` leaves at the place of a channel. -/
def entryOf (c : Channel) : PollFd := ⟨if c.isNoneEvent then negated c.fd else c.fd, c.events⟩

def setFd (w : PollWatch ι) (idx : Nat) (pfd : PollFd) : PollWatch ι :=
  { w with poller := { w.poller with pollFds := w.poller.pollFds.set idx pfd } }

def updateChannel (w : PollWatch ι) (i : ι) : Except Fault (PollWatch ι) :=
  let c := w.channels i
  if c.index < 0 then
    if w.poller.channels c.fd = none then .ok (w.pushFd i) else .error .assertion
  else if w.poller.channels c.fd = some i then
    match w.poller.pollFds[c.index.toNat]? with
    | some pfd =>
      if pfd.fd = c.fd ∨ pfd.fd = negated c.fd then .ok (w.setFd c.index.toNat (entryOf c))
      else .error .assertion
    | none => .error .assertion
  else .error .assertion

/-- The array after the entry at `idx` was swapped with the last one and dropped. -/
def dropFd (w : PollWatch ι) (fd : Int) (idx : Nat) (last : PollFd) : PollWatch ι :=
  { w with poller := ⟨Function.update w.poller.channels fd none,
    (w.poller.pollFds.set idx last).dropLast⟩ }

/-- The part of `RemoveChannel` after its assertions. -/
def eraseFd (w : PollWatch ι) (fd : Int) (idx : Nat) : Except Fault (PollWatch ι) :=
  match w.poller.pollFds.getLast? with
  | none => .error .outOfBounds
  | some last =>
    if idx = w.poller.pollFds.length - 1 then .ok (w.dropFd fd idx last)
    else
      let channelAtEnd := if last.fd < 0 then negated last.fd else last.fd
      match Function.update w.poller.channels fd none channelAtEnd with
      | some j => .ok ((w.dropFd fd idx last).setChannel j { w.channels j with index := idx })
      | none => .error .outOfBounds

def removeChannel (w : PollWatch ι) (i : ι) : Except Fault (PollWatch ι) :=
  let c := w.channels i
  if w.poller.channels c.fd = some i ∧ c.isNoneEvent ∧ 0 ≤ c.index then
    match w.poller.pollFds[c.index.toNat]? with
    | some pfd =>
      if pfd.fd = negated c.fd ∧ pfd.events = c.events then w.eraseFd c.fd c.index.toNat
      else .error .assertion
    | none => .error .assertion
  else .error .assertion

/-- An operation of the channel, as `Channel` passes it to this poller. -/
def perform (w : PollWatch ι) (i : ι) : ChannelOp → Except Fault (PollWatch ι)
  | .remove => w.removeChannel i
  | op => (w.setChannel i { w.channels i with events := op.mask (w.channels i).events }).updateChannel i

/-- `activeChannels`, and `revents_` of the channels. -/
structure Active (ι : Type) where
  channels : List ι
  revents : ι → Int

/-- The loop of `FillActiveChannels`, over the slots with the `revents` that `poll` left in
them. -/
def fillActiveChannels (w : PollWatch ι) :
    List (PollFd × Int) → Int → Active ι → Except Fault (Active ι)
  | [], _, a => .ok a
  | (pfd, revents) :: slots, numEvents, a =>
    if 0 < numEvents then
      if 0 < revents then
        match w.poller.channels pfd.fd with
        | some i =>
          if (w.channels i).fd = pfd.fd then
            fillActiveChannels w slots (numEvents - 1)
              ⟨a.channels ++ [i], Function.update a.revents i revents⟩
          else .error .assertion
        | none => .error .assertion
      else fillActiveChannels w slots numEvents a
    else .ok a

theorem perform_update {op : ChannelOp} (h : op ≠ .remove) (w : PollWatch ι) (i : ι) :
    w.perform i op = (w.setChannel i
      { w.channels i with events := op.mask (w.channels i).events }).updateChannel i := by
  cases op with
  | remove => exact absurd rfl h
  | _ => rfl

end PollWatch

end RyanNetwork

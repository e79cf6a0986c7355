import Mathlib.Algebra.Group.Nat.Defs
import Mathlib.Data.List.Basic
import RyanNetwork.Lib.Double

/-!
# `TimerQueue`

The set of timers ordered by expiration, and the one-shot timerfd that
`ResetTimerfd` arms. Every call of `Timestamp::Now()` takes the next value of an
arbitrary clock: the wall clock may be set while the timerfd, which runs on the
monotonic clock, is armed. A `Timer*` is held by one owner at a time, the set or
the vector of expired entries, so an entry carries the timer itself.
-/
namespace RyanNetwork.Timers

open Lib

set_option autoImplicit false

def kMicroSecondsPerSecond : Double := ⟨1000000, 0, by decide⟩

/-- `AddTime(timestamp, seconds)`: the product is cut down to whole microseconds. -/
def addTime (timestamp : Int) (seconds : Double) : Int :=
  timestamp + (seconds.mul kMicroSecondsPerSecond).toInt64

/-- `interval` is in seconds. -/
structure Timer where
  addr : Nat
  expiration : Int
  interval : Double
  deriving DecidableEq, Repr

/-- `repeat_`, which the constructor sets to `interval > 0.0`. -/
def Timer.repeats (t : Timer) : Bool := 0 < t.interval.significand

/-- `Restart(now)`. -/
def Timer.restart (t : Timer) (now : Int) : Timer :=
  if t.repeats then { t with expiration := addTime now t.interval }
  else { t with expiration := 0 }

/-- `std::pair<Timestamp, Timer*>`. -/
structure Entry where
  time : Int
  timer : Timer
  deriving DecidableEq, Repr

/-- The order of `std::set<Entry>`: by time, then by address. -/
def Entry.less (e : Entry) (time : Int) (addr : Nat) : Bool :=
  e.time < time || e.time == time && e.timer.addr < addr

/-- `std::set::insert`: an equivalent entry stays in its place. -/
def insertEntry (e : Entry) : List Entry → List Entry
  | [] => [e]
  | x :: xs =>
    if e.less x.time x.timer.addr then e :: x :: xs
    else if x.less e.time e.timer.addr then x :: insertEntry e xs
    else x :: xs

/-- A pending expiration of the timerfd: the timestamp it was computed for, and
the delay in microseconds after which it fires. -/
structure Armed where
  expiration : Int
  delay : Int
  deriving DecidableEq, Repr

/-- `ticks` counts the calls of `Timestamp::Now()` so far. -/
structure TimerQueue where
  timers : List Entry
  timerfd : Option Armed
  callingExpiredTimers : Bool
  ticks : Nat
  deriving DecidableEq, Repr

def UINTPTR_MAX : Nat := 2 ^ 64 - 1

namespace TimerQueue

/-- The constructor. -/
def new : TimerQueue := ⟨[], none, false, 0⟩

variable (clock : Nat → Int)

/-- `ResetTimerfd(timerfd_, expiration)`. The difference is a 64-bit one, and a
delay below 100 microseconds is raised to it. -/
def resetTimerfd (q : TimerQueue) (expiration : Int) : TimerQueue :=
  let microSecondDif := (expiration - clock q.ticks).bmod (2 ^ 64)
  { q with
    timerfd := some ⟨expiration, if microSecondDif < 100 then 100 else microSecondDif⟩
    ticks := q.ticks + 1 }

/-- Whether a timer for `time` becomes the earliest one. -/
def earliestChanged (q : TimerQueue) (time : Int) : Bool :=
  match q.timers with
  | [] => true
  | e :: _ => time < e.time

/-- The set after `Insert(timer)`, which returns `earliestChanged`. -/
def insert (q : TimerQueue) (t : Timer) : TimerQueue :=
  { q with timers := insertEntry ⟨t.expiration, t⟩ q.timers }

def addTimerInLoop (q : TimerQueue) (t : Timer) : TimerQueue :=
  if q.earliestChanged t.expiration then (q.insert t).resetTimerfd clock t.expiration
  else q.insert t

/-- The entries below `lower_bound` of the sentry `(now, UINTPTR_MAX)`. -/
def expired (q : TimerQueue) (now : Int) : List Entry :=
  q.timers.takeWhile (·.less now UINTPTR_MAX)

/-- `GetExpired(now)` takes them out of the set. -/
def getExpired (q : TimerQueue) (now : Int) : TimerQueue :=
  { q with timers := q.timers.dropWhile (·.less now UINTPTR_MAX) }

/-- The calls of `AddTimer` that one callback makes on the loop thread. -/
def addTimers (q : TimerQueue) : List Timer → TimerQueue
  | [] => q
  | t :: ts => addTimers (q.addTimerInLoop clock t) ts

/-- The callbacks of the expired timers, each with the timers it adds. -/
def runCallbacks (q : TimerQueue) (adds : Timer → List Timer) : List Entry → TimerQueue
  | [] => q
  | e :: es => runCallbacks (q.addTimers clock (adds e.timer)) adds es

/-- The loop over the expired timers in `HandleRead`, between its two assignments
of `calling_expired_timers_`. -/
def callExpired (q : TimerQueue) (adds : Timer → List Timer) (es : List Entry) : TimerQueue :=
  { runCallbacks clock { q with callingExpiredTimers := true } adds es with
    callingExpiredTimers := false }

/-- A repeating timer goes back into the set, any other one is deleted. -/
def restartExpired (q : TimerQueue) (t : Timer) : TimerQueue :=
  if t.repeats then { q with ticks := q.ticks + 1 }.insert (t.restart (clock q.ticks)) else q

/-- The re-arming in the body of the loop of `Reset`. -/
def rearm (q : TimerQueue) : TimerQueue :=
  match q.timers with
  | [] => q
  | e :: _ => q.resetTimerfd clock e.timer.expiration

/-- `Reset(expired, now)`. -/
def reset (q : TimerQueue) : List Entry → TimerQueue
  | [] => q
  | e :: es => reset ((q.restartExpired clock e.timer).rearm clock) es

/-- `HandleRead()`. `ReadTimerFd` leaves the queue as it is. -/
def handleRead (q : TimerQueue) (adds : Timer → List Timer) : TimerQueue :=
  let now := clock q.ticks
  let es := q.expired now
  let q := { q with ticks := q.ticks + 1 }.getExpired now
  (q.callExpired clock adds es).reset clock es

end TimerQueue

end RyanNetwork.Timers

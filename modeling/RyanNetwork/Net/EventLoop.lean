import RyanNetwork.Lib.Runs

/-!
# `EventLoop` with the threads that call it

The loop thread goes through `EventLoopThread::ThreadFunc` and the iterations of
`Loop`, one step at each access to what it shares with other threads: `quit_`,
`pending_functors_` under its mutex, and the eventfd. Other threads push functors
and call `Quit` between any two of its steps. The callbacks and functors the loop
thread runs do the same from inside, and so does the code it runs before `Loop`, the
`callback_` of `ThreadFunc`.
-/
namespace RyanNetwork.Net

set_option autoImplicit false

/-- A functor in the queue. `during` is ghost: the number of the `DoPendingFunctors`
call whose batch was being executed when the functor was pushed, if any. -/
structure Entry (F : Type) where
  functor : F
  during : Option Nat
  deriving DecidableEq, Repr

/-- A channel that `Poll` found ready: the eventfd's, or one with user callbacks. -/
inductive Active where
  | wakeup
  | user
  deriving DecidableEq, Repr

/-- Where the loop thread is. `initializing` is inside `callback_(&loop)`, `entering`
between the test of `quit_` and `epoll_wait`, `polling` inside it. -/
inductive Phase (F : Type) where
  | constructed
  | initializing
  | initialized
  | published
  | testQuit
  | entering
  | polling
  | handling (active : List Active) (inCallback : Bool)
  | beforeSwap
  | batch (functors : List (Entry F)) (inFunctor : Bool)
  | exited

/-- How far a thread is in a call of `QueueInLoop` or `Quit`. -/
inductive CallStage where
  | none
  | pushed
  | quitting
  deriving DecidableEq, Repr

/-- `wakeup` is the counter of the eventfd. The last four fields are ghost: the
functors pushed so far, those executed with the number of the `DoPendingFunctors`
call that did, the number of such calls, and whether some `Quit` has returned. -/
structure EventLoop (F : Type) where
  phase : Phase F
  ownCall : CallStage
  others : Nat → CallStage
  looping : Bool
  quit : Bool
  callingPendingFunctors : Bool
  pendingFunctors : List (Entry F)
  wakeup : Nat
  pushed : List (Entry F)
  executed : List (Entry F × Nat)
  calls : Nat
  quitReturned : Bool

namespace EventLoop

variable {F : Type}

/-- The constructor. -/
def new (F : Type) : EventLoop F where
  phase := .constructed
  ownCall := .none
  others := fun _ => .none
  looping := false
  quit := false
  callingPendingFunctors := false
  pendingFunctors := []
  wakeup := 0
  pushed := []
  executed := []
  calls := 0
  quitReturned := false

/-- The call of `DoPendingFunctors` whose batch is being executed. -/
def executing (l : EventLoop F) : Option Nat :=
  match l.phase with
  | .batch _ _ => some l.calls
  | _ => none

/-- The unexecuted rest of the local batch of `DoPendingFunctors`. -/
def rest (l : EventLoop F) : List (Entry F) :=
  match l.phase with
  | .batch functors _ => functors
  | _ => []

/-- The critical section of `QueueInLoop`. -/
def push (l : EventLoop F) (f : F) : EventLoop F :=
  { l with
    pendingFunctors := l.pendingFunctors ++ [⟨f, l.executing⟩]
    pushed := l.pushed ++ [⟨f, l.executing⟩] }

/-- `Wakeup`. -/
def wake (l : EventLoop F) : EventLoop F := { l with wakeup := l.wakeup + 1 }

/-- The read of the eventfd in `HandleRead`. -/
def handleRead (l : EventLoop F) : EventLoop F := { l with wakeup := 0 }

def setOwnCall (l : EventLoop F) (c : CallStage) : EventLoop F := { l with ownCall := c }

def setOther (l : EventLoop F) (t : Nat) (c : CallStage) : EventLoop F :=
  { l with others := Function.update l.others t c }

def setQuit (l : EventLoop F) : EventLoop F := { l with quit := true }

/-- The loop thread runs user code: `callback_`, a channel callback or a functor. -/
def InUserCode (l : EventLoop F) : Prop :=
  l.ownCall = .none ∧
    (l.phase = .initializing ∨ (∃ active, l.phase = .handling active true) ∨
      ∃ functors, l.phase = .batch functors true)

/-- `ThreadFunc` has not published the loop yet. -/
def Unpublished (l : EventLoop F) : Prop :=
  l.phase = .constructed ∨ l.phase = .initializing ∨ l.phase = .initialized

end EventLoop

/-- The steps of the loop thread, the calls it makes from user code, and the calls
of other threads. -/
inductive Action (F : Type) where
  | callThreadInit
  | threadInitReturns
  | publish
  | startLoop
  | testQuit
  | enterPoll
  | pollReturns (active : List Active)
  | handleWakeup
  | callUser
  | userReturns
  | handled
  | swap
  | callFunctor
  | functorReturns
  | batchDone
  | ownPush (f : F)
  | ownWake
  | ownQuit
  | ownQuitWake
  | otherPush (t : Nat) (f : F)
  | otherWake (t : Nat)
  | otherQuit (t : Nat)
  | otherQuitReturns (t : Nat)

open EventLoop

variable {F : Type}

/-- One step of one thread. Other threads know the loop from `StartLoop`, which returns
it once `ThreadFunc` has published it, or already from `callback_`, which may pass it on;
without a `callback_` the loop is published at once. `Quit` wakes the loop only when the
loop thread itself calls it, as its test is written. -/
inductive LoopStep : EventLoop F → Action F → EventLoop F → Prop where
  | callThreadInit {l : EventLoop F} (hp : l.phase = .constructed) :
      LoopStep l .callThreadInit { l with phase := .initializing }
  | threadInitReturns {l : EventLoop F} (hp : l.phase = .initializing) (hc : l.ownCall = .none) :
      LoopStep l .threadInitReturns { l with phase := .initialized }
  | publish {l : EventLoop F} (hp : l.phase = .constructed ∨ l.phase = .initialized) :
      LoopStep l .publish { l with phase := .published }
  | startLoop {l : EventLoop F} (hp : l.phase = .published) (hl : l.looping = false) :
      LoopStep l .startLoop { l with phase := .testQuit, looping := true, quit := false }
  | testQuit {l : EventLoop F} (hp : l.phase = .testQuit) :
      LoopStep l .testQuit (if l.quit then { l with phase := .exited, looping := false }
        else { l with phase := .entering })
  | enterPoll {l : EventLoop F} (hp : l.phase = .entering) :
      LoopStep l .enterPoll { l with phase := .polling }
  | pollReturns {l : EventLoop F} {active : List Active} (hp : l.phase = .polling)
      (ha : .wakeup ∈ active → 0 < l.wakeup) :
      LoopStep l (.pollReturns active) { l with phase := .handling active false }
  | handleWakeup {l : EventLoop F} {active : List Active}
      (hp : l.phase = .handling (.wakeup :: active) false) :
      LoopStep l .handleWakeup { l.handleRead with phase := .handling active false }
  | callUser {l : EventLoop F} {active : List Active}
      (hp : l.phase = .handling (.user :: active) false) :
      LoopStep l .callUser { l with phase := .handling active true }
  | userReturns {l : EventLoop F} {active : List Active}
      (hp : l.phase = .handling active true) (hc : l.ownCall = .none) :
      LoopStep l .userReturns { l with phase := .handling active false }
  | handled {l : EventLoop F} (hp : l.phase = .handling [] false) :
      LoopStep l .handled
        { l with phase := .beforeSwap, callingPendingFunctors := true, calls := l.calls + 1 }
  | swap {l : EventLoop F} (hp : l.phase = .beforeSwap) :
      LoopStep l .swap { l with phase := .batch l.pendingFunctors false, pendingFunctors := [] }
  | callFunctor {l : EventLoop F} {e : Entry F} {functors : List (Entry F)}
      (hp : l.phase = .batch (e :: functors) false) :
      LoopStep l .callFunctor
        { l with phase := .batch functors true, executed := l.executed ++ [(e, l.calls)] }
  | functorReturns {l : EventLoop F} {functors : List (Entry F)}
      (hp : l.phase = .batch functors true) (hc : l.ownCall = .none) :
      LoopStep l .functorReturns { l with phase := .batch functors false }
  | batchDone {l : EventLoop F} (hp : l.phase = .batch [] false) :
      LoopStep l .batchDone { l with phase := .testQuit, callingPendingFunctors := false }
  | ownPush {l : EventLoop F} {f : F} (hu : l.InUserCode) :
      LoopStep l (.ownPush f) ((l.push f).setOwnCall .pushed)
  | ownWake {l : EventLoop F} (hc : l.ownCall = .pushed) :
      LoopStep l .ownWake ((if l.callingPendingFunctors then l.wake else l).setOwnCall .none)
  | ownQuit {l : EventLoop F} (hu : l.InUserCode) :
      LoopStep l .ownQuit (l.setQuit.setOwnCall .quitting)
  | ownQuitWake {l : EventLoop F} (hc : l.ownCall = .quitting) :
      LoopStep l .ownQuitWake { l.wake.setOwnCall .none with quitReturned := true }
  | otherPush {l : EventLoop F} {t : Nat} {f : F} (hp : l.phase ≠ .constructed)
      (hc : l.others t = .none) : LoopStep l (.otherPush t f) ((l.push f).setOther t .pushed)
  | otherWake {l : EventLoop F} {t : Nat} (hc : l.others t = .pushed) :
      LoopStep l (.otherWake t) (l.wake.setOther t .none)
  | otherQuit {l : EventLoop F} {t : Nat} (hp : l.phase ≠ .constructed)
      (hc : l.others t = .none) : LoopStep l (.otherQuit t) (l.setQuit.setOther t .quitting)
  | otherQuitReturns {l : EventLoop F} {t : Nat} (hc : l.others t = .quitting) :
      LoopStep l (.otherQuitReturns t) { l.setOther t .none with quitReturned := true }

end RyanNetwork.Net

import RyanNetwork.Lib.Condition
import RyanNetwork.Lib.Runs

/-!
# `ThreadPool`

Callers of `RunTask` push tasks under the mutex, workers take them. Each section between two
releases of the mutex is one step: up to a wait, or from the return of a wait on, which is
again up to the next wait. A waiting thread may wake up spuriously. A `std::function` that
may be empty is an `Option`.
-/
namespace RyanNetwork.Base

open Lib

set_option autoImplicit false

variable {α : Type} [DecidableEq α]

/-- `assertion`: an `assert` failed. -/
inductive Fault where
  | assertion
  deriving DecidableEq, Repr

/-- A call of `RunTask`, by the thread that makes it. -/
structure Call (α : Type) where
  caller : Nat
  task : Option α
  deriving DecidableEq, Repr

/-- Where a worker is in `RunInThread`: about to test `running_`, about to lock in `Take`,
waiting there, with a task to run, or out of the loop. -/
inductive WorkerPhase (α : Type) where
  | testing
  | taking
  | waiting
  | executing (task : α)
  | finished
  deriving DecidableEq, Repr

/-- `pushed`, `taken` and `ran` are the tasks that entered `queue_`, left it and were run so
far, each in that order. -/
structure ThreadPool (α : Type) where
  maxQueueSize : Nat
  running : Bool
  queue : List (Option α)
  notEmpty : Condition Nat
  notFull : Condition (Call α)
  workers : List (WorkerPhase α)
  pushed : List (Option α)
  taken : List (Option α)
  ran : List α
  deriving DecidableEq, Repr

/-- How a section ends: nothing to report, the task was pushed, the task was dropped, or
`Take` returned. -/
inductive Report (α : Type) where
  | nothing
  | pushed
  | discarded
  | took (task : Option α)
  deriving DecidableEq, Repr

namespace ThreadPool

/-- `SetMaxQueueSize` and `Start`. -/
def start (maxQueueSize numThreads : Nat) : ThreadPool α where
  maxQueueSize := maxQueueSize
  running := true
  queue := []
  notEmpty := .empty
  notFull := .empty
  workers := List.replicate numThreads .testing
  pushed := []
  taken := []
  ran := []

def isFull (p : ThreadPool α) : Bool := 0 < p.maxQueueSize && p.maxQueueSize ≤ p.queue.length

/-- `RunTask` from the test of its loop on, up to the next wait or to the return. -/
def runTaskSection (p : ThreadPool α) (c : Call α) (choice : Option Nat) :
    Except Fault (ThreadPool α × Report α) :=
  if p.isFull && p.running then .ok ({ p with notFull := p.notFull.wait c }, .nothing)
  else if !p.running then .ok (p, .discarded)
  else if p.isFull then .error .assertion
  else .ok ({ p with
    queue := p.queue ++ [c.task]
    pushed := p.pushed ++ [c.task]
    notEmpty := p.notEmpty.notifyOne choice }, .pushed)

/-- `RunTask`; a pool without threads runs the task at once. -/
def runTask (p : ThreadPool α) (c : Call α) (choice : Option Nat) :
    Except Fault (ThreadPool α × Report α) :=
  if p.workers.isEmpty then .ok ({ p with ran := p.ran ++ c.task.toList }, .nothing)
  else p.runTaskSection c choice

/-- What a worker does with the task that `Take` returned. -/
def afterTake : Option α → WorkerPhase α
  | some task => .executing task
  | none => .testing

/-- `Take` of worker `i` from the test of its loop on, up to the next wait or to the return. -/
def takeSection (p : ThreadPool α) (i : Nat) (choice : Option (Call α)) :
    ThreadPool α × Report α :=
  if p.queue.isEmpty && p.running then
    ({ p with notEmpty := p.notEmpty.wait i, workers := p.workers.set i .waiting }, .nothing)
  else
    match p.queue with
    | [] => ({ p with workers := p.workers.set i .testing }, .took none)
    | task :: queue =>
      ({ p with
        queue := queue
        taken := p.taken ++ [task]
        notFull := if 0 < p.maxQueueSize then p.notFull.notifyOne choice else p.notFull
        workers := p.workers.set i (afterTake task) }, .took task)

/-- The locked section of `Stop`. -/
def stop (p : ThreadPool α) : ThreadPool α :=
  { p with
    running := false
    notEmpty := p.notEmpty.notifyAll
    notFull := p.notFull.notifyAll }

/-- `while (running_)` of `RunInThread`. -/
def testRunning (p : ThreadPool α) (i : Nat) : ThreadPool α :=
  { p with workers := p.workers.set i (if p.running then .taking else .finished) }

/-- `task()` of `RunInThread`. -/
def execute (p : ThreadPool α) (i : Nat) (task : α) : ThreadPool α :=
  { p with ran := p.ran ++ [task], workers := p.workers.set i .testing }

end ThreadPool

/-- A step of some thread, with the waiter that its `notify_one` marks. -/
inductive PoolStep (α : Type) where
  | runTask (c : Call α) (choice : Option Nat)
  | resumeCall (c : Call α) (choice : Option Nat)
  | wakeCall (c : Call α)
  | testRunning (i : Nat)
  | take (i : Nat) (choice : Option (Call α))
  | resumeTake (i : Nat) (choice : Option (Call α))
  | wakeWorker (i : Nat)
  | execute (i : Nat) (task : α)
  | stop

namespace ThreadPool

def perform (p : ThreadPool α) : PoolStep α → Except Fault (ThreadPool α × Report α)
  | .runTask c choice => p.runTask c choice
  | .resumeCall c choice =>
    { p with notFull := p.notFull.resume c }.runTaskSection c choice
  | .wakeCall c => .ok ({ p with notFull := p.notFull.wake c }, .nothing)
  | .testRunning i => .ok (p.testRunning i, .nothing)
  | .take i choice => .ok (p.takeSection i choice)
  | .resumeTake i choice =>
    .ok ({ p with notEmpty := p.notEmpty.resume i }.takeSection i choice)
  | .wakeWorker i => .ok ({ p with notEmpty := p.notEmpty.wake i }, .nothing)
  | .execute i task => .ok (p.execute i task, .nothing)
  | .stop => .ok (p.stop, .nothing)

/-- Callers bring tasks that are not empty, and a thread makes one call at a time; a worker
takes the step that its phase allows. -/
def Enabled (p : ThreadPool α) : PoolStep α → Prop
  | .runTask c choice =>
    c.task.isSome ∧ c.caller ∉ p.notFull.waiters.map Call.caller ∧ p.notEmpty.Chooses choice
  | .resumeCall c choice => p.notFull.Ready c ∧ p.notEmpty.Chooses choice
  | .wakeCall c => c ∈ p.notFull.unmarked
  | .testRunning i => p.workers[i]? = some .testing
  | .take i choice => p.workers[i]? = some .taking ∧ p.notFull.Chooses choice
  | .resumeTake i choice => p.notEmpty.Ready i ∧ p.notFull.Chooses choice
  | .wakeWorker i => i ∈ p.notEmpty.unmarked
  | .execute i task => p.workers[i]? = some (.executing task)
  | .stop => True

instance (p : ThreadPool α) : DecidablePred p.Enabled
  | .runTask _ _ => inferInstanceAs (Decidable (_ ∧ _ ∧ _))
  | .resumeCall _ _ => inferInstanceAs (Decidable (_ ∧ _))
  | .wakeCall _ => inferInstanceAs (Decidable (_ ∈ _))
  | .testRunning _ => inferInstanceAs (Decidable (_ = _))
  | .take _ _ => inferInstanceAs (Decidable (_ ∧ _))
  | .resumeTake _ _ => inferInstanceAs (Decidable (_ ∧ _))
  | .wakeWorker _ => inferInstanceAs (Decidable (_ ∈ _))
  | .execute _ _ => inferInstanceAs (Decidable (_ = _))
  | .stop => isTrue trivial

/-- The state after a step. -/
def next (p : ThreadPool α) (a : PoolStep α) : Except Fault (ThreadPool α) :=
  (p.perform a).map Prod.fst

def Step (p : ThreadPool α) (a : PoolStep α) (q : ThreadPool α) : Prop :=
  p.Enabled a ∧ p.next a = .ok q

/-! ## What a section can do -/

omit [DecidableEq α] in
/-- A call waits, is dropped, or pushes its task. -/
theorem runTaskSection_cases (p : ThreadPool α) (c : Call α) (choice : Option Nat) :
    (p.isFull = true ∧ p.running = true ∧
      p.runTaskSection c choice = .ok ({ p with notFull := p.notFull.wait c }, .nothing)) ∨
    (p.running = false ∧ p.runTaskSection c choice = .ok (p, .discarded)) ∨
    (p.isFull = false ∧ p.running = true ∧
      p.runTaskSection c choice = .ok ({ p with
        queue := p.queue ++ [c.task]
        pushed := p.pushed ++ [c.task]
        notEmpty := p.notEmpty.notifyOne choice }, .pushed)) := by
  unfold runTaskSection
  cases hr : p.running with
  | false => exact Or.inr (Or.inl ⟨rfl, by simp⟩)
  | true =>
    cases hf : p.isFull with
    | true => exact Or.inl ⟨rfl, rfl, by simp⟩
    | false => exact Or.inr (Or.inr ⟨rfl, rfl, by simp⟩)

/-- `Take` waits, returns empty-handed, or takes the first task. -/
theorem takeSection_cases (p : ThreadPool α) (i : Nat) (choice : Option (Call α)) :
    (p.queue = [] ∧ p.running = true ∧ p.takeSection i choice =
      ({ p with notEmpty := p.notEmpty.wait i, workers := p.workers.set i .waiting }, .nothing)) ∨
    (p.queue = [] ∧ p.running = false ∧ p.takeSection i choice =
      ({ p with workers := p.workers.set i .testing }, .took none)) ∨
    ∃ task queue, p.queue = task :: queue ∧ p.takeSection i choice =
      ({ p with
        queue := queue
        taken := p.taken ++ [task]
        notFull := if 0 < p.maxQueueSize then p.notFull.notifyOne choice else p.notFull
        workers := p.workers.set i (afterTake task) }, .took task) := by
  unfold takeSection
  cases hq : p.queue with
  | nil =>
    cases hr : p.running with
    | true => exact Or.inl ⟨rfl, rfl, by simp⟩
    | false => exact Or.inr (Or.inl ⟨rfl, rfl, by simp⟩)
  | cons task queue => exact Or.inr (Or.inr ⟨task, queue, rfl, by simp⟩)

end ThreadPool

end RyanNetwork.Base

import RyanNetwork.Base.TaskQueue

/-!
# No wakeup of a `ThreadPool` is lost

A queued task is a reason for a worker to wake up, free room one for a waiting caller. Both
conditions have at least as many marks under way as reasons while somebody waits unmarked: a
push and a take add a reason with its notification, and a resumed thread that takes its mark
along either uses up a reason or finds none.
-/
namespace RyanNetwork.Base.ThreadPool

open Lib

set_option autoImplicit false

variable {α : Type} [DecidableEq α] {p q : ThreadPool α}

/-- The room that `RunTask` finds in a bounded queue. -/
def freeRoom (p : ThreadPool α) : Nat := p.maxQueueSize - p.queue.length

/-- The callers that wait are distinct, and stopping leaves nobody unmarked. -/
structure Calls (p : ThreadPool α) : Prop where
  distinct : (p.notFull.waiters.map Call.caller).Nodup
  stopped : p.running = false → p.notEmpty.unmarked = [] ∧ p.notFull.unmarked = []

structure Awake (p : ThreadPool α) : Prop extends Calls p where
  workers : p.notEmpty.Covers p.queue.length
  callers : 0 < p.maxQueueSize → p.notFull.Covers p.freeRoom

omit [DecidableEq α] in
theorem awake_start (maxQueueSize numThreads : Nat) :
    Awake (start maxQueueSize numThreads : ThreadPool α) := by
  refine ⟨⟨by simp [start, Condition.empty, Condition.waiters], by simp [start]⟩,
    Condition.covers_zero _, fun _ => Condition.covers_of_unmarked rfl _⟩

omit [DecidableEq α] in
/-- A caller in `RunTask` that is not waiting, and may have taken a mark along. -/
theorem runTaskSection_awake {c : Call α} {choice : Option Nat} {r : Report α} (hp : Calls p)
    (hworkers : p.notEmpty.Covers p.queue.length)
    (hcallers : 0 < p.maxQueueSize → p.notFull.Covers (p.freeRoom - 1))
    (hc : c.caller ∉ p.notFull.waiters.map Call.caller) (hchoice : p.notEmpty.Chooses choice)
    (hs : p.runTaskSection c choice = .ok (q, r)) : Awake q := by
  rcases runTaskSection_cases p c choice with ⟨hfull, hrun, he⟩ |
    ⟨hrun, he⟩ | ⟨-, hrun, he⟩
  · rw [he] at hs
    cases hs
    refine ⟨⟨List.nodup_cons.mpr ⟨hc, hp.distinct⟩, fun hr => absurd (hrun.symm.trans hr) (by simp)⟩,
      hworkers, fun _ => ?_⟩
    have hzero : p.freeRoom = 0 := by
      simp only [isFull, Bool.and_eq_true, decide_eq_true_eq] at hfull
      unfold freeRoom
      omega
    exact (Condition.covers_zero _).mono (Nat.le_of_eq hzero)
  · rw [he] at hs
    cases hs
    exact ⟨hp, hworkers, fun _ => Condition.covers_of_unmarked (hp.stopped hrun).2 _⟩
  · rw [he] at hs
    cases hs
    refine ⟨⟨hp.distinct, fun hr => absurd (hrun.symm.trans hr) (by simp)⟩, ?_, fun hmax => ?_⟩
    · rw [List.length_append, List.length_singleton]
      exact hworkers.notifyOne hchoice
    · apply (hcallers hmax).mono
      simp only [freeRoom, List.length_append, List.length_singleton]
      omega

/-- A worker in `Take` that is not waiting, and may have taken a mark along. -/
theorem takeSection_awake {i : Nat} {choice : Option (Call α)} (hp : Calls p)
    (hworkers : p.notEmpty.Covers (p.queue.length - 1))
    (hcallers : 0 < p.maxQueueSize → p.notFull.Covers p.freeRoom)
    (hchoice : p.notFull.Chooses choice) : Awake (p.takeSection i choice).1 := by
  rcases takeSection_cases p i choice with ⟨hq, hrun, he⟩ | ⟨hq, -, he⟩ | ⟨task, queue, hq, he⟩
  · rw [he]
    refine ⟨⟨hp.distinct, fun hr => absurd (hrun.symm.trans hr) (by simp)⟩, ?_, hcallers⟩
    dsimp only
    rw [hq]
    exact Condition.covers_zero _
  · rw [he]
    refine ⟨⟨hp.distinct, hp.stopped⟩, ?_, hcallers⟩
    dsimp only
    rw [hq]
    exact Condition.covers_zero _
  · rw [he]
    rw [hq, List.length_cons, Nat.add_sub_cancel] at hworkers
    refine ⟨⟨?_, fun hr => ?_⟩, hworkers, fun hmax => ?_⟩
    · dsimp only
      split
      · exact ((Condition.waiters_notifyOne hchoice).map _).nodup_iff.mpr hp.distinct
      · exact hp.distinct
    · obtain ⟨hnone, hcalls⟩ := hp.stopped hr
      refine ⟨hnone, ?_⟩
      dsimp only
      split
      · exact Condition.notifyOne_unmarked hcalls choice
      · exact hcalls
    · dsimp only
      rw [if_pos hmax]
      apply ((hcallers hmax).notifyOne hchoice).mono
      simp only [freeRoom, hq, List.length_cons]
      omega

theorem perform_awake {a : PoolStep α} {r : Report α} (h : Awake p) (ha : p.Enabled a)
    (hs : p.perform a = .ok (q, r)) : Awake q := by
  cases a with
  | runTask c choice =>
    obtain ⟨-, hc, hchoice⟩ := ha
    rw [perform, runTask] at hs
    split at hs
    · cases hs
      exact ⟨⟨h.distinct, h.stopped⟩, h.workers, h.callers⟩
    · exact runTaskSection_awake h.toCalls h.workers
        (fun hmax => (h.callers hmax).mono (Nat.sub_le _ _)) hc hchoice hs
  | resumeCall c choice =>
    obtain ⟨hready, hchoice⟩ := ha
    have hperm := (Condition.waiters_resume hready).map Call.caller
    obtain ⟨hc, hdistinct⟩ := List.nodup_cons.mp (hperm.nodup_iff.mp h.distinct)
    refine runTaskSection_awake (p := { p with notFull := p.notFull.resume c })
      ⟨hdistinct, fun hr => ?_⟩ h.workers (fun hmax => (h.callers hmax).resume c) hc hchoice hs
    exact (h.stopped hr).imp_right (Condition.resume_unmarked p.notFull c).trans
  | wakeCall c =>
    cases hs
    refine ⟨⟨((Condition.waiters_wake ha).map _).nodup_iff.mpr h.distinct, fun hr => ?_⟩,
      h.workers, fun hmax => (h.callers hmax).wake c⟩
    exact (h.stopped hr).imp_right (Condition.wake_unmarked · c)
  | testRunning i =>
    cases hs
    exact ⟨⟨h.distinct, h.stopped⟩, h.workers, h.callers⟩
  | take i choice =>
    have hq : (p.takeSection i choice).1 = q := congrArg Prod.fst (Except.ok.inj hs)
    rw [← hq]
    exact takeSection_awake h.toCalls (h.workers.mono (Nat.sub_le _ _)) h.callers ha.2
  | resumeTake i choice =>
    have hq : ({ p with notEmpty := p.notEmpty.resume i }.takeSection i choice).1 = q :=
      congrArg Prod.fst (Except.ok.inj hs)
    rw [← hq]
    refine takeSection_awake (p := { p with notEmpty := p.notEmpty.resume i })
      ⟨h.distinct, fun hr => ?_⟩ (h.workers.resume i) h.callers ha.2
    exact (h.stopped hr).imp_left (Condition.resume_unmarked p.notEmpty i).trans
  | wakeWorker i =>
    cases hs
    refine ⟨⟨h.distinct, fun hr => ?_⟩, h.workers.wake i, h.callers⟩
    exact (h.stopped hr).imp_left (Condition.wake_unmarked · i)
  | execute i task =>
    cases hs
    exact ⟨⟨h.distinct, h.stopped⟩, h.workers, h.callers⟩
  | stop =>
    cases hs
    exact ⟨⟨((Condition.waiters_notifyAll _).map _).nodup_iff.mpr h.distinct,
      fun _ => ⟨rfl, rfl⟩⟩, Condition.covers_of_unmarked rfl _,
      fun _ => Condition.covers_of_unmarked rfl _⟩

theorem step_awake {a : PoolStep α} (h : Awake p) (hs : Step p a q) : Awake q := by
  obtain ⟨ha, hs⟩ := hs
  cases he : p.perform a with
  | error e =>
    rw [next, he] at hs
    cases hs
  | ok s =>
    rw [next, he] at hs
    cases hs
    exact perform_awake h ha he

/-- In every state that callers, workers and `Stop` can reach: while the pool runs and a worker
waits unmarked, there are no more queued tasks than workers marked and not yet resumed; while
it runs and a caller waits unmarked for room, there is no more room than callers marked and not
yet resumed; once it is stopped nobody waits unmarked. Each worker and each caller waits at
most once. -/
theorem no_pool_wakeup_lost {maxQueueSize numThreads : Nat} {steps : List (PoolStep α)}
    (hr : Run Step (start maxQueueSize numThreads) steps p) :
    (p.running = true → p.notEmpty.unmarked ≠ [] →
        p.queue.length ≤ p.notEmpty.marked.length) ∧
      (p.running = true → 0 < p.maxQueueSize → p.notFull.unmarked ≠ [] →
        p.maxQueueSize - p.queue.length ≤ p.notFull.marked.length) ∧
      (p.running = false → p.notEmpty.unmarked = [] ∧ p.notFull.unmarked = []) ∧
      p.notEmpty.waiters.Nodup ∧ (∀ i ∈ p.notEmpty.waiters, p.workers[i]? = some .waiting) ∧
      (p.notFull.waiters.map Call.caller).Nodup := by
  have h : Awake p :=
    hr.invariant (P := Awake) (fun _ _ _ => step_awake) (awake_start maxQueueSize numThreads)
  have hwaits := (run_orderly hr).waits
  exact ⟨fun _ => h.workers, fun _ => h.callers, h.stopped, hwaits.distinct, hwaits.waiting,
    h.distinct⟩

/-- Two workers wait; a task is pushed, and a second caller finds the queue full. -/
theorem no_pool_wakeup_lost_two_workers : ∃ p : ThreadPool Nat,
    Run Step (start 1 2) [.testRunning 0, .testRunning 1, .take 0 none, .take 1 none,
      .runTask ⟨7, some 1⟩ (some 1), .runTask ⟨8, some 2⟩ (some 0)] p ∧
    p.queue = [some 1] ∧ p.notEmpty.marked = [1] ∧ p.notEmpty.unmarked = [0] ∧
    p.queue.length ≤ p.notEmpty.marked.length := by
  have hok : ((Run.exec Enabled next (start 1 2) [.testRunning 0, .testRunning 1, .take 0 none,
      .take 1 none, .runTask ⟨7, some 1⟩ (some 1), .runTask ⟨8, some 2⟩ (some 0)]).map
      fun p : ThreadPool Nat => (p.queue, p.notEmpty.marked, p.notEmpty.unmarked, p.running)) =
      some ([some 1], [1], [0], true) := by decide
  obtain ⟨p, hp, hall⟩ := Option.map_eq_some_iff.mp hok
  obtain ⟨hqueue, hall⟩ := Prod.mk.inj hall
  obtain ⟨hmarked, hall⟩ := Prod.mk.inj hall
  obtain ⟨hunmarked, hrunning⟩ := Prod.mk.inj hall
  have hr := Run.of_exec hp
  refine ⟨p, hr, hqueue, hmarked, hunmarked, (no_pool_wakeup_lost hr).1 hrunning ?_⟩
  rw [hunmarked]
  simp

end RyanNetwork.Base.ThreadPool

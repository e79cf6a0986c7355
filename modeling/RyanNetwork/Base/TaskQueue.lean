import Mathlib.Data.List.ReduceOption
import RyanNetwork.Base.ThreadPool

/-!
# The tasks of a `ThreadPool`

What workers have taken, followed by `queue_`, is what callers have pushed; the queue stays
within its bound; and every task taken is run by the worker that took it, once. The waiters
of `not_empty_` are workers in `Take`, each of them once.
-/
namespace RyanNetwork.Base.ThreadPool

open Lib

set_option autoImplicit false

variable {α : Type} {p q : ThreadPool α} {numThreads : Nat}

/-- The task that a worker has taken and not run yet. -/
def heldTask : WorkerPhase α → Option α
  | .executing task => some task
  | _ => none

/-- The tasks taken and not run yet. -/
def held (workers : List (WorkerPhase α)) : List α := workers.filterMap heldTask

/-- The waiters of `not_empty_` are distinct workers, all in the wait of `Take`. -/
structure Waits (p : ThreadPool α) : Prop where
  distinct : p.notEmpty.waiters.Nodup
  waiting : ∀ i ∈ p.notEmpty.waiters, p.workers[i]? = some .waiting

/-- A pool without workers runs its tasks in the callers, and takes none. -/
structure Orderly (numThreads : Nat) (p : ThreadPool α) : Prop where
  crew : p.workers.length = numThreads
  stream : p.taken ++ p.queue = p.pushed
  bound : 0 < p.maxQueueSize → p.queue.length ≤ p.maxQueueSize
  full : ∀ task ∈ p.queue, task.isSome
  calls : ∀ c ∈ p.notFull.waiters, c.task.isSome
  waits : Waits p
  once : 0 < numThreads → (p.ran ++ held p.workers).Perm p.taken.reduceOption

theorem isFull_eq_false_iff : p.isFull = false ↔
    (0 < p.maxQueueSize → p.queue.length < p.maxQueueSize) := by
  simp only [isFull, Bool.and_eq_false_iff, decide_eq_false_iff_not]
  omega

/-! ## Phases of the workers -/

/-- A worker that is not among the waiters changes its phase. -/
theorem Waits.set {i : Nat} (hw : Waits p) (hi : i ∉ p.notEmpty.waiters) (x : WorkerPhase α) :
    ∀ j ∈ p.notEmpty.waiters, (p.workers.set i x)[j]? = some .waiting := by
  intro j hj
  have hne : i ≠ j := fun he => hi (he ▸ hj)
  rw [List.getElem?_set_ne hne]
  exact hw.waiting j hj

/-- The waiters change places in the condition, or some leave it. -/
theorem Waits.of_subset (hw : Waits p) (hd : q.notEmpty.waiters.Nodup)
    (hsub : q.notEmpty.waiters ⊆ p.notEmpty.waiters) (hworkers : q.workers = p.workers) :
    Waits q :=
  ⟨hd, fun i hi => by rw [hworkers]; exact hw.waiting i (hsub hi)⟩

theorem Waits.of_perm (hw : Waits p) (hperm : q.notEmpty.waiters.Perm p.notEmpty.waiters)
    (hworkers : q.workers = p.workers) : Waits q :=
  hw.of_subset (hperm.nodup_iff.mpr hw.distinct) hperm.subset hworkers

theorem Waits.not_mem {i : Nat} {y : WorkerPhase α} (hw : Waits p) (h : p.workers[i]? = some y)
    (hy : y ≠ .waiting) : i ∉ p.notEmpty.waiters := by
  intro hi
  exact hy (Option.some.inj (h.symm.trans (hw.waiting i hi)))

/-- A worker that has got the mutex again is no longer among the waiters. -/
theorem Waits.resume {i : Nat} (hw : Waits p) (hi : p.notEmpty.Ready i) :
    Waits { p with notEmpty := p.notEmpty.resume i } ∧
      i ∉ (p.notEmpty.resume i).waiters ∧ p.workers[i]? = some .waiting := by
  have hperm := Condition.waiters_resume hi
  have hnodup := hperm.nodup_iff.mp hw.distinct
  obtain ⟨hnot, hrest⟩ := List.nodup_cons.mp hnodup
  refine ⟨hw.of_subset hrest ?_ rfl, hnot, ?_⟩
  · intro j hj
    exact hperm.mem_iff.mpr (List.mem_cons_of_mem i hj)
  · exact hw.waiting i (hperm.mem_iff.mpr List.mem_cons_self)

theorem orderly_start (maxQueueSize numThreads : Nat) :
    Orderly numThreads (start maxQueueSize numThreads : ThreadPool α) := by
  have hheld : held (List.replicate numThreads (.testing : WorkerPhase α)) = [] := by
    simp [held, heldTask, List.filterMap_replicate]
  refine ⟨List.length_replicate, rfl, fun _ => Nat.zero_le _, by simp [start], by simp [start,
    Condition.empty, Condition.waiters], ⟨by simp [start, Condition.empty, Condition.waiters], by
    simp [start, Condition.empty, Condition.waiters]⟩, fun _ => ?_⟩
  simp only [start, hheld]
  exact List.Perm.refl _

section Sections

variable [DecidableEq α]

theorem held_set {workers : List (WorkerPhase α)} {i : Nat} {y : WorkerPhase α}
    (x : WorkerPhase α) (h : workers[i]? = some y) :
    (held (workers.set i x) ++ (heldTask y).toList).Perm
      (held workers ++ (heldTask x).toList) := by
  obtain ⟨hi, hy⟩ := List.getElem?_eq_some_iff.mp h
  have hold : workers = workers.take i ++ y :: workers.drop (i + 1) := by
    rw [← hy, List.getElem_cons_drop, List.take_append_drop]
  have hsingle (z : WorkerPhase α) : List.filterMap heldTask [z] = (heldTask z).toList := by
    cases hz : heldTask z with
    | none => exact List.filterMap_cons_none hz
    | some task => exact List.filterMap_cons_some hz
  have hcons (z : WorkerPhase α) : held (workers.take i ++ z :: workers.drop (i + 1)) =
      held (workers.take i) ++ ((heldTask z).toList ++ held (workers.drop (i + 1))) := by
    rw [held, List.filterMap_append, ← List.singleton_append, List.filterMap_append, hsingle]
    rfl
  have hnew : held (workers.set i x) =
      held (workers.take i) ++ ((heldTask x).toList ++ held (workers.drop (i + 1))) := by
    rw [List.set_eq_take_append_cons_drop, if_pos hi, hcons]
  have hsame : held workers =
      held (workers.take i) ++ ((heldTask y).toList ++ held (workers.drop (i + 1))) :=
    (congrArg held hold).trans (hcons y)
  rw [hnew, hsame, List.perm_iff_count]
  intro task
  simp only [List.count_append]
  omega

/-- A worker without a task in hand gets one, or none. -/
theorem held_set_none {workers : List (WorkerPhase α)} {i : Nat} {y : WorkerPhase α}
    (x : WorkerPhase α) (h : workers[i]? = some y) (hy : heldTask y = none) :
    (held (workers.set i x)).Perm (held workers ++ (heldTask x).toList) := by
  have hset := held_set x h
  rw [hy, Option.toList_none, List.append_nil] at hset
  exact hset

/-- A worker that changes its phase without a task in hand. -/
theorem held_set_idle {workers : List (WorkerPhase α)} {i : Nat} {y : WorkerPhase α}
    (x : WorkerPhase α) (h : workers[i]? = some y) (hy : heldTask y = none)
    (hx : heldTask x = none) : (held (workers.set i x)).Perm (held workers) := by
  have hset := held_set_none x h hy
  rw [hx, Option.toList_none, List.append_nil] at hset
  exact hset

/-! ## Sections -/

omit [DecidableEq α] in
/-- A section of `RunTask` does not fail, pushes only below the bound, and drops its task only
once the pool is stopped. -/
theorem runTaskSection_orderly {c : Call α} {choice : Option Nat} (h : Orderly numThreads p)
    (hc : c.task.isSome) (hchoice : p.notEmpty.Chooses choice) :
    ∃ q r, p.runTaskSection c choice = .ok (q, r) ∧ Orderly numThreads q ∧
      (r = .discarded → p.running = false) ∧ ∀ task, r ≠ .took task := by
  rcases runTaskSection_cases p c choice with ⟨-, -, hs⟩ |
    ⟨hr, hs⟩ | ⟨hfull, -, hs⟩
  · refine ⟨_, _, hs, ⟨h.crew, h.stream, h.bound, h.full, ?_, ?_, h.once⟩, by simp, by simp⟩
    · intro c' hc'
      rcases List.mem_cons.mp hc' with rfl | hold
      · exact hc
      · exact h.calls c' hold
    · exact h.waits.of_perm (List.Perm.refl _) rfl
  · exact ⟨_, _, hs, h, fun _ => hr, by simp⟩
  · have hroom := isFull_eq_false_iff.mp hfull
    refine ⟨_, _, hs, ⟨h.crew, ?_, ?_, ?_, h.calls, ?_, h.once⟩, by simp, by simp⟩
    · dsimp only
      rw [← List.append_assoc, h.stream]
    · intro hmax
      have hlt := hroom hmax
      rw [List.length_append, List.length_singleton]
      exact hlt
    · intro task htask
      rcases List.mem_append.mp htask with hold | hnew
      · exact h.full task hold
      · rw [List.mem_singleton.mp hnew]
        exact hc
    · exact h.waits.of_perm (Condition.waiters_notifyOne hchoice) rfl

/-- A section of `Take` takes the first task, and returns without one only once the pool is
stopped. -/
theorem takeSection_orderly {i : Nat} {y : WorkerPhase α} {choice : Option (Call α)}
    (h : Orderly numThreads p) (hi : i ∉ p.notEmpty.waiters) (hy : p.workers[i]? = some y)
    (hnone : heldTask y = none) (hchoice : p.notFull.Chooses choice) :
    Orderly numThreads (p.takeSection i choice).1 ∧
      ((p.takeSection i choice).2 = .took none → p.running = false) ∧
      (p.takeSection i choice).2 ≠ .discarded := by
  have hcrew (x : WorkerPhase α) : (p.workers.set i x).length = numThreads :=
    List.length_set.trans h.crew
  have hlt : i < p.workers.length := (List.getElem?_eq_some_iff.mp hy).1
  rcases takeSection_cases p i choice with ⟨hq, -, hs⟩ | ⟨hq, hr, hs⟩ | ⟨task, queue, hq, hs⟩
  · rw [hs]
    refine ⟨⟨hcrew _, h.stream, h.bound, h.full, h.calls, ⟨?_, ?_⟩, ?_⟩, by simp, by simp⟩
    · exact List.nodup_cons.mpr ⟨hi, h.waits.distinct⟩
    · intro j hj
      rcases List.mem_cons.mp hj with rfl | hold
      · exact List.getElem?_set_self hlt
      · exact h.waits.set hi _ j hold
    · have hheld := held_set_idle .waiting hy hnone rfl
      exact fun hn => (hheld.append_left _).trans (h.once hn)
  · rw [hs]
    refine ⟨⟨hcrew _, h.stream, h.bound, h.full, h.calls, ⟨h.waits.distinct, h.waits.set hi _⟩,
      ?_⟩, fun _ => hr, by simp⟩
    have hheld := held_set_idle .testing hy hnone rfl
    exact fun hn => (hheld.append_left _).trans (h.once hn)
  · rw [hs]
    have hsome : task.isSome := h.full task (by rw [hq]; exact List.mem_cons_self)
    obtain ⟨t, rfl⟩ := Option.isSome_iff_exists.mp hsome
    refine ⟨⟨hcrew _, ?_, ?_, ?_, ?_, ⟨h.waits.distinct, h.waits.set hi _⟩, ?_⟩, by simp,
      by simp⟩
    · have hstream := h.stream
      rw [hq] at hstream
      simpa only [List.append_assoc, List.singleton_append] using hstream
    · intro hmax
      have hbound := h.bound hmax
      rw [hq, List.length_cons] at hbound
      exact Nat.le_of_succ_le hbound
    · intro task' htask'
      exact h.full task' (by rw [hq]; exact List.mem_cons_of_mem _ htask')
    · dsimp only
      split
      · intro c hc
        exact h.calls c ((Condition.waiters_notifyOne hchoice).mem_iff.mp hc)
      · exact h.calls
    · intro hn
      have hheld := held_set_none (.executing t) hy hnone
      simp only [heldTask, Option.toList_some] at hheld
      simp only [afterTake, List.reduceOption_append, List.reduceOption_singleton,
        Option.toList_some]
      refine (hheld.append_left _).trans ?_
      rw [← List.append_assoc]
      exact (h.once hn).append_right _

/-! ## Steps and runs -/

/-- Every step returns; a task is dropped, and `Take` returns without one, only once the pool
is stopped. -/
theorem perform_orderly {a : PoolStep α} (h : Orderly numThreads p) (ha : p.Enabled a) :
    ∃ q r, p.perform a = .ok (q, r) ∧ Orderly numThreads q ∧ (r = .discarded → p.running = false) ∧
      (r = .took none → p.running = false) := by
  cases a with
  | runTask c choice =>
    obtain ⟨hc, -, hchoice⟩ := ha
    rw [perform, runTask]
    split
    · rename_i hnobody
      refine ⟨_, _, rfl, ⟨h.crew, h.stream, h.bound, h.full, h.calls,
        ⟨h.waits.distinct, h.waits.waiting⟩, fun hn => ?_⟩, by simp, by simp⟩
      have hcrew := h.crew
      rw [List.isEmpty_iff.mp hnobody, List.length_nil] at hcrew
      omega
    · obtain ⟨q, r, hs, hq, hdrop, hnot⟩ := runTaskSection_orderly h hc hchoice
      exact ⟨q, r, hs, hq, hdrop, fun hr => absurd hr (hnot none)⟩
  | resumeCall c choice =>
    obtain ⟨hready, hchoice⟩ := ha
    have hperm := Condition.waiters_resume hready
    have hc : c.task.isSome := h.calls c (hperm.mem_iff.mpr List.mem_cons_self)
    have hresumed : Orderly numThreads { p with notFull := p.notFull.resume c } :=
      ⟨h.crew, h.stream, h.bound, h.full,
        fun c' hc' => h.calls c' (hperm.mem_iff.mpr (List.mem_cons_of_mem c hc')),
        ⟨h.waits.distinct, h.waits.waiting⟩, h.once⟩
    obtain ⟨q, r, hs, hq, hdrop, hnot⟩ := runTaskSection_orderly hresumed hc hchoice
    exact ⟨q, r, hs, hq, hdrop, fun hr => absurd hr (hnot none)⟩
  | wakeCall c =>
    refine ⟨_, _, rfl, ⟨h.crew, h.stream, h.bound, h.full, ?_,
      ⟨h.waits.distinct, h.waits.waiting⟩, h.once⟩, by simp, by simp⟩
    exact fun c' hc' => h.calls c' ((Condition.waiters_wake ha).mem_iff.mp hc')
  | testRunning i =>
    have hi := h.waits.not_mem ha (by simp)
    refine ⟨_, _, rfl, ⟨List.length_set.trans h.crew, h.stream, h.bound, h.full, h.calls,
      ⟨h.waits.distinct, h.waits.set hi _⟩, fun hn => ?_⟩, by simp, by simp⟩
    have hphase : heldTask (if p.running then .taking else .finished : WorkerPhase α) = none := by
      split <;> rfl
    exact ((held_set_idle _ ha rfl hphase).append_left _).trans (h.once hn)
  | take i choice =>
    obtain ⟨hy, hchoice⟩ := ha
    obtain ⟨hq, hempty, hnot⟩ :=
      takeSection_orderly h (h.waits.not_mem hy (by simp)) hy rfl hchoice
    exact ⟨_, _, rfl, hq, fun hr => absurd hr hnot, hempty⟩
  | resumeTake i choice =>
    obtain ⟨hready, hchoice⟩ := ha
    obtain ⟨hwaits, hi, hy⟩ := h.waits.resume hready
    have hresumed : Orderly numThreads { p with notEmpty := p.notEmpty.resume i } :=
      ⟨h.crew, h.stream, h.bound, h.full, h.calls, hwaits, h.once⟩
    obtain ⟨hq, hempty, hnot⟩ := takeSection_orderly hresumed hi hy rfl hchoice
    exact ⟨_, _, rfl, hq, fun hr => absurd hr hnot, hempty⟩
  | wakeWorker i =>
    exact ⟨_, _, rfl, ⟨h.crew, h.stream, h.bound, h.full, h.calls,
      h.waits.of_perm (Condition.waiters_wake ha) rfl, h.once⟩, by simp, by simp⟩
  | execute i task =>
    have hi := h.waits.not_mem ha (by simp)
    refine ⟨_, _, rfl, ⟨List.length_set.trans h.crew, h.stream, h.bound, h.full, h.calls,
      ⟨h.waits.distinct, h.waits.set hi _⟩, fun hn => ?_⟩, by simp, by simp⟩
    have hheld := held_set .testing ha
    simp only [heldTask, Option.toList_some, Option.toList_none, List.append_nil] at hheld
    refine List.Perm.trans ?_ (h.once hn)
    simp only [execute]
    rw [List.append_assoc]
    exact (List.perm_append_comm.trans hheld).append_left _
  | stop =>
    refine ⟨_, _, rfl, ⟨h.crew, h.stream, h.bound, h.full, ?_,
      h.waits.of_perm (Condition.waiters_notifyAll _) rfl, h.once⟩, by simp, by simp⟩
    exact fun c hc => h.calls c ((Condition.waiters_notifyAll _).mem_iff.mp hc)

theorem step_orderly {a : PoolStep α} (h : Orderly numThreads p) (hs : Step p a q) :
    Orderly numThreads q := by
  obtain ⟨ha, hs⟩ := hs
  obtain ⟨q', r, hp, hq', -⟩ := perform_orderly h ha
  rw [next, hp] at hs
  cases hs
  exact hq'

theorem run_orderly {maxQueueSize : Nat} {steps : List (PoolStep α)}
    (hr : Run Step (start maxQueueSize numThreads) steps p) : Orderly numThreads p :=
  hr.invariant (P := Orderly numThreads) (fun _ _ _ => step_orderly)
    (orderly_start maxQueueSize numThreads)

/-- For every number of workers, every bound and every interleaving of callers, workers and
`Stop`, with spurious wakeups: the tasks taken, then `queue_`, are the tasks pushed; every task
taken was run once or is in the hands of one worker; the queue keeps its bound; no step fails
its assertion; a task is dropped, and `Take` returns an empty one, only once `running_` is
false. -/
theorem tasks_run_in_order {maxQueueSize : Nat} {steps : List (PoolStep α)}
    (hn : 0 < numThreads) (hr : Run Step (start maxQueueSize numThreads) steps p) :
    p.taken ++ p.queue = p.pushed ∧ (p.ran ++ held p.workers).Perm p.taken.reduceOption ∧
      (0 < p.maxQueueSize → p.queue.length ≤ p.maxQueueSize) ∧
      ∀ a, p.Enabled a → ∃ q r, p.perform a = .ok (q, r) ∧
        (r = .discarded → p.running = false) ∧ (r = .took none → p.running = false) := by
  have h := run_orderly hr
  refine ⟨h.stream, h.once hn, h.bound, ?_⟩
  intro a ha
  obtain ⟨q, r, hs, -, hdrop, hempty⟩ := perform_orderly h ha
  exact ⟨q, r, hs, hdrop, hempty⟩

/-- A caller has to wait for room, which a worker makes; then the pool is stopped. -/
theorem tasks_run_in_order_bounded : ∃ p : ThreadPool Nat,
    Run Step (start 1 1) [.runTask ⟨7, some 1⟩ none, .runTask ⟨8, some 2⟩ none, .testRunning 0,
      .take 0 (some ⟨8, some 2⟩), .resumeCall ⟨8, some 2⟩ none, .execute 0 1, .testRunning 0,
      .take 0 none, .stop] p ∧
    p.pushed = [some 1, some 2] ∧ p.taken = [some 1, some 2] ∧ p.ran = [1] ∧
    p.taken ++ p.queue = p.pushed := by
  have hok : ((Run.exec Enabled next (start 1 1) [.runTask ⟨7, some 1⟩ none,
      .runTask ⟨8, some 2⟩ none, .testRunning 0, .take 0 (some ⟨8, some 2⟩),
      .resumeCall ⟨8, some 2⟩ none, .execute 0 1, .testRunning 0, .take 0 none, .stop]).map
      fun p : ThreadPool Nat => (p.pushed, p.taken, p.ran)) =
      some ([some 1, some 2], [some 1, some 2], [1]) := by decide
  obtain ⟨p, hp, htriple⟩ := Option.map_eq_some_iff.mp hok
  obtain ⟨hpushed, hpair⟩ := Prod.mk.inj htriple
  obtain ⟨htaken, hran⟩ := Prod.mk.inj hpair
  have hr := Run.of_exec hp
  exact ⟨p, hr, hpushed, htaken, hran, (tasks_run_in_order (by decide) hr).1⟩

end Sections

end RyanNetwork.Base.ThreadPool

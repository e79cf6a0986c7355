import Mathlib.Data.List.Perm.Basic
import Mathlib.Data.List.Nodup
import RyanNetwork.Timers.Arming

/-!
# The life of a timer

`HandleRead` step by step: the batch is taken out of the set, each callback runs
and may add timers, then each timer of the batch goes back into the set or is
deleted. Timers are numbered in the order of their additions, since an address is
used again once its timer is deleted. At every point each number is accounted for
once: in the set, in the batch, or among the deleted. A repeating timer goes back with the
clock plus its interval if `AddTime` gives its whole number of microseconds, which takes an
interval whose product with a million does not round to less.
-/
namespace RyanNetwork.Timers

open Lib TimerQueue

set_option autoImplicit false

/-! ## The steps of `HandleRead` -/

/-- Where the loop thread is: outside of `HandleRead`, in its loop over the callbacks
(those that have been called and those that have not), or in `Reset`. -/
inductive Phase where
  | idle
  | calling (done todo : List Entry)
  | resetting (todo : List Entry)
  deriving DecidableEq, Repr

namespace Phase

/-- The entries of `expired` that are neither back in the set nor deleted. -/
def batch : Phase → List Entry
  | idle => []
  | calling done todo => done ++ todo
  | resetting todo => todo

/-- Those of them whose callback has been called. -/
def served : Phase → List Entry
  | idle => []
  | calling done _ => done
  | resetting todo => todo

theorem served_subset (p : Phase) : p.served ⊆ p.batch := by
  cases p with
  | idle => exact List.Subset.refl _
  | calling done todo => exact List.subset_append_left done todo
  | resetting todo => exact List.Subset.refl _

end Phase

/-- The queue and the record of all timers: `number` of the timer at a live address,
the timer `origin n` as it was added, the numbers deleted, and the numbers in the
order in which their callbacks were called. -/
structure Lifecycle where
  queue : TimerQueue
  phase : Phase
  number : Nat → Nat
  origin : Nat → Timer
  added : Nat
  deleted : List Nat
  ran : List Nat

namespace Lifecycle

def new : Lifecycle := ⟨.new, .idle, fun _ => 0, fun _ => ⟨0, 0, ⟨0, 0, by decide⟩⟩, 0, [], []⟩

def numberOf (s : Lifecycle) (e : Entry) : Nat := s.number e.timer.addr

/-- The entries whose timers have not been deleted. -/
def live (s : Lifecycle) : List Entry := s.queue.timers ++ s.phase.batch

/-- User code runs: outside of `HandleRead`, or in the callback called last. -/
def InUserCode (s : Lifecycle) : Prop :=
  s.phase = .idle ∨ ∃ done todo, done ≠ [] ∧ s.phase = .calling done todo

end Lifecycle

inductive LifeStep where
  | addTimerInLoop (t : Timer)
  | handleRead
  | run
  | endCalls
  | restart
  | finish
  deriving DecidableEq, Repr

namespace Lifecycle

variable (clock : Nat → Int)

def addTimer (s : Lifecycle) (t : Timer) : Lifecycle :=
  { s with
    queue := s.queue.addTimerInLoop clock t
    number := Function.update s.number t.addr s.added
    origin := Function.update s.origin s.added t
    added := s.added + 1 }

/-- `HandleRead` up to its loop over the callbacks. -/
def beginRead (s : Lifecycle) : Lifecycle :=
  let now := clock s.queue.ticks
  { s with
    queue := { { s.queue with ticks := s.queue.ticks + 1 }.getExpired now with
      callingExpiredTimers := true }
    phase := .calling [] (s.queue.expired now) }

def runCallback (s : Lifecycle) (done : List Entry) (e : Entry) (todo : List Entry) : Lifecycle :=
  { s with phase := .calling (done ++ [e]) todo, ran := s.ran ++ [s.numberOf e] }

def endCalls (s : Lifecycle) (done : List Entry) : Lifecycle :=
  { s with queue := { s.queue with callingExpiredTimers := false }, phase := .resetting done }

/-- One round of the loop of `Reset`. -/
def resetOne (s : Lifecycle) (e : Entry) (todo : List Entry) : Lifecycle :=
  { s with
    queue := (s.queue.restartExpired clock e.timer).rearm clock
    phase := .resetting todo
    deleted := if e.timer.repeats then s.deleted else s.deleted ++ [s.numberOf e] }

/-- A timer that is added lies below the sentry's address and apart from all live ones. -/
def Step (s : Lifecycle) : LifeStep → Lifecycle → Prop
  | .addTimerInLoop t, s' =>
    s.InUserCode ∧ t.addr < UINTPTR_MAX ∧ (∀ e ∈ s.live, e.timer.addr ≠ t.addr) ∧
      s' = s.addTimer clock t
  | .handleRead, s' => s.phase = .idle ∧ s' = s.beginRead clock
  | .run, s' => ∃ done e todo, s.phase = .calling done (e :: todo) ∧ s' = s.runCallback done e todo
  | .endCalls, s' => ∃ done, s.phase = .calling done [] ∧ s' = s.endCalls done
  | .restart, s' => ∃ e todo, s.phase = .resetting (e :: todo) ∧ s' = s.resetOne clock e todo
  | .finish, s' => s.phase = .resetting [] ∧ s' = { s with phase := .idle }

end Lifecycle

/-! ## The set under insertion -/

/-- An entry of another timer never counts as equivalent. -/
theorem insertEntry_perm {e : Entry} {l : List Entry}
    (h : ∀ x ∈ l, x.timer.addr ≠ e.timer.addr) : (insertEntry e l).Perm (e :: l) := by
  induction l with
  | nil => exact List.Perm.refl _
  | cons x xs ih =>
    unfold insertEntry
    split
    · exact List.Perm.refl _
    · rename_i hn
      split
      · have hxs := ih fun y hy => h y (List.mem_cons_of_mem _ hy)
        exact (List.Perm.cons x hxs).trans (List.Perm.swap e x xs)
      · rename_i hn'
        exfalso
        have hx := h x List.mem_cons_self
        simp only [Entry.less, Bool.or_eq_true, decide_eq_true_eq, Bool.and_eq_true,
          beq_iff_eq] at hn hn'
        omega

theorem addTimerInLoop_timers (clock : Nat → Int) (q : TimerQueue) (t : Timer) :
    (q.addTimerInLoop clock t).timers = insertEntry ⟨t.expiration, t⟩ q.timers := by
  unfold addTimerInLoop
  split
  · rfl
  · rfl

/-- On the ordered set the sentry of `GetExpired` selects the timers that are due. -/
theorem expired_eq_filter {q : TimerQueue} (ho : Ordered q) (now : Int) :
    q.expired now = q.timers.filter fun e => e.timer.expiration ≤ now := by
  obtain ⟨hs, hk, ha⟩ := ho
  unfold expired
  generalize q.timers = l at hs hk ha
  induction l with
  | nil => rfl
  | cons x xs ih =>
    obtain ⟨hx, hxs⟩ := List.pairwise_cons.mp hs
    have hless : x.less now UINTPTR_MAX = true ↔ x.time ≤ now :=
      less_sentry (ha x List.mem_cons_self)
    have hkey := hk x List.mem_cons_self
    by_cases hle : x.time ≤ now
    · have htail := ih hxs (fun e he => hk e (List.mem_cons_of_mem _ he))
        fun e he => ha e (List.mem_cons_of_mem _ he)
      rw [List.takeWhile_cons_of_pos (p := fun d : Entry => d.less now UINTPTR_MAX)
        (hless.mpr hle), htail, List.filter_cons_of_pos (by simpa [hkey] using hle)]
    · rw [List.takeWhile_cons_of_neg (p := fun d : Entry => d.less now UINTPTR_MAX)
        (mt hless.mp hle), List.filter_cons_of_neg (by simpa [hkey] using hle)]
      symm
      apply List.filter_eq_nil_iff.mpr
      intro e he
      have h1 := hx e he
      have h2 := hk e (List.mem_cons_of_mem _ he)
      simp only [decide_eq_true_eq]
      omega

/-! ## The books -/

/-- What `Restart` leaves alone in a timer. -/
def Timer.fixed (t : Timer) : Timer := { t with expiration := 0 }

theorem restart_fixed (t : Timer) (now : Int) : (t.restart now).fixed = t.fixed := by
  unfold Timer.restart
  split
  · rfl
  · rfl

theorem addr_of_fixed {t u : Timer} (h : t.fixed = u.fixed) : t.addr = u.addr := by
  have := congrArg Timer.addr h
  exact this

/-- Every number is accounted for once by the live timers and the deleted ones, and
a live timer is the one that was added under its number. -/
structure Books (s : Lifecycle) (live : List Timer) : Prop where
  distinct : (live.map Timer.addr).Nodup
  partition : (live.map (fun t => s.number t.addr) ++ s.deleted).Perm (List.range s.added)
  kept : ∀ t ∈ live, (s.origin (s.number t.addr)).fixed = t.fixed

/-- The books do not depend on the order of the timers or on their expirations. -/
theorem Books.of_perm {s : Lifecycle} {l l' : List Timer} (h : Books s l)
    (hp : (l'.map Timer.fixed).Perm (l.map Timer.fixed)) : Books s l' := by
  have haddr : (l'.map Timer.addr).Perm (l.map Timer.addr) := by
    have := hp.map Timer.addr
    rwa [List.map_map, List.map_map] at this
  have hnum : (l'.map fun t => s.number t.addr).Perm (l.map fun t => s.number t.addr) := by
    have := haddr.map s.number
    rwa [List.map_map, List.map_map] at this
  constructor
  · exact haddr.nodup_iff.mpr h.distinct
  · exact (hnum.append_right _).trans h.partition
  · intro t ht
    obtain ⟨u, hu, hut⟩ := List.mem_map.mp (hp.subset (List.mem_map_of_mem ht))
    have hua : u.addr = t.addr := addr_of_fixed hut
    rw [← hut, ← hua]
    exact h.kept u hu

theorem Books.number_lt {s : Lifecycle} {l : List Timer} (h : Books s l) {t : Timer}
    (ht : t ∈ l) : s.number t.addr < s.added := by
  apply List.mem_range.mp
  apply h.partition.subset
  exact List.mem_append_left _ (List.mem_map_of_mem ht)

/-- A live timer has not been deleted. -/
theorem Books.not_deleted {s : Lifecycle} {l : List Timer} (h : Books s l) {t : Timer}
    (ht : t ∈ l) : s.number t.addr ∉ s.deleted := by
  have hnd := h.partition.nodup_iff.mpr List.nodup_range
  intro hd
  exact (List.nodup_append.mp hnd).2.2 _ (List.mem_map_of_mem ht) _ hd rfl

/-- No two live timers have one number. -/
theorem Books.numbers_nodup {s : Lifecycle} {l : List Timer} (h : Books s l) :
    (l.map fun t => s.number t.addr).Nodup :=
  (List.nodup_append.mp (h.partition.nodup_iff.mpr List.nodup_range)).1

/-- A live timer is deleted. -/
theorem Books.delete {s s' : Lifecycle} {t : Timer} {l : List Timer} (h : Books s (t :: l))
    (hdel : s'.deleted = s.deleted ++ [s.number t.addr]) (hnum : s'.number = s.number)
    (hadded : s'.added = s.added) (horigin : s'.origin = s.origin) : Books s' l := by
  constructor
  · have hnd := h.distinct
    rw [List.map_cons, List.nodup_cons] at hnd
    exact hnd.2
  · rw [hdel, hnum, hadded]
    have hpart := h.partition
    rw [List.map_cons] at hpart
    refine List.Perm.trans ?_ hpart
    rw [← List.append_assoc]
    exact List.perm_append_singleton _ _
  · intro u hu
    rw [horigin, hnum]
    exact h.kept u (List.mem_cons_of_mem _ hu)

/-- What holds between any two steps. -/
structure Sound (s : Lifecycle) : Prop where
  ordered : Ordered s.queue
  below : ∀ e ∈ s.phase.batch, e.timer.addr < UINTPTR_MAX
  books : Books s (s.live.map Entry.timer)
  ran_lt : ∀ n ∈ s.ran, n < s.added
  once : ∀ n, (s.origin n).repeats = false → s.ran.count n ≤ 1
  settled : ∀ n ∈ s.ran, (s.origin n).repeats = false →
    n ∈ s.phase.served.map s.numberOf ∨ n ∈ s.deleted

theorem sound_new : Sound Lifecycle.new where
  ordered := new_armed.1
  below := by simp [Lifecycle.new, Phase.batch]
  books := ⟨List.nodup_nil, List.Perm.refl _, by simp [Lifecycle.live, Lifecycle.new, Phase.batch,
    TimerQueue.new]⟩
  ran_lt := by simp [Lifecycle.new]
  once := by simp [Lifecycle.new]
  settled := by simp [Lifecycle.new]

/-! ## One step -/

section Steps

variable {clock : Nat → Int} {s : Lifecycle}

theorem sound_addTimer {t : Timer} (h : Sound s) (hlt : t.addr < UINTPTR_MAX)
    (hfresh : ∀ e ∈ s.live, e.timer.addr ≠ t.addr) : Sound (s.addTimer clock t) := by
  have hother (a : Nat) (ha : a ≠ t.addr) : (s.addTimer clock t).number a = s.number a :=
    Function.update_of_ne ha ..
  have hnew : (s.addTimer clock t).number t.addr = s.added := Function.update_self ..
  have horigin (n : Nat) (hn : n < s.added) : (s.addTimer clock t).origin n = s.origin n :=
    Function.update_of_ne (Nat.ne_of_lt hn) ..
  have hlive : ((s.addTimer clock t).live.map Entry.timer).Perm (t :: s.live.map Entry.timer) := by
    have hp : (insertEntry ⟨t.expiration, t⟩ s.queue.timers ++ s.phase.batch).Perm
        (⟨t.expiration, t⟩ :: s.live) :=
      (insertEntry_perm fun x hx => hfresh x (List.mem_append_left _ hx)).append_right _
    have := hp.map Entry.timer
    rwa [← addTimerInLoop_timers clock] at this
  have hlt' (n : Nat) (hn : n ∈ s.ran) : n < s.added := h.ran_lt n hn
  have hfresh' (u : Timer) (hu : u ∈ s.live.map Entry.timer) : u.addr ≠ t.addr := by
    obtain ⟨e, he, rfl⟩ := List.mem_map.mp hu
    exact hfresh e he
  constructor
  · exact ordered_addTimerInLoop h.ordered hlt
  · exact h.below
  · refine Books.of_perm (l := t :: s.live.map Entry.timer) ⟨?_, ?_, ?_⟩ (hlive.map _)
    · rw [List.map_cons, List.nodup_cons]
      refine ⟨?_, h.books.distinct⟩
      intro hmem
      obtain ⟨u, hu, hut⟩ := List.mem_map.mp hmem
      exact hfresh' u hu hut
    · rw [List.map_cons, hnew]
      have hsame : (s.live.map Entry.timer).map (fun u => (s.addTimer clock t).number u.addr) =
          (s.live.map Entry.timer).map fun u => s.number u.addr :=
        List.map_congr_left fun u hu => hother _ (hfresh' u hu)
      rw [hsame]
      show (s.added :: (_ ++ s.deleted)).Perm (List.range (s.added + 1))
      rw [List.range_succ]
      exact (h.books.partition.cons _).trans (List.perm_append_singleton _ _).symm
    · intro u hu
      rcases List.mem_cons.mp hu with rfl | hu
      · rw [hnew]
        show (Function.update s.origin s.added u s.added).fixed = _
        rw [Function.update_self]
      · rw [hother _ (hfresh' u hu), horigin _ (h.books.number_lt hu)]
        exact h.books.kept u hu
  · intro n hn
    exact Nat.lt_succ_of_lt (h.ran_lt n hn)
  · intro n hn
    by_cases hadd : n < s.added
    · rw [horigin n hadd] at hn
      exact h.once n hn
    · have hnot : n ∉ s.ran := fun hr => hadd (h.ran_lt n hr)
      have hzero : s.ran.count n = 0 := List.count_eq_zero.mpr hnot
      show s.ran.count n ≤ 1
      omega
  · intro n hn hrep
    rw [horigin n (h.ran_lt n hn)] at hrep
    rcases h.settled n hn hrep with hs | hd
    · obtain ⟨e, he, rfl⟩ := List.mem_map.mp hs
      refine Or.inl (List.mem_map.mpr ⟨e, he, ?_⟩)
      apply hother
      exact hfresh e (List.mem_append_right _ (Phase.served_subset _ he))
    · exact Or.inr hd

theorem sound_beginRead (h : Sound s) (hi : s.phase = .idle) : Sound (s.beginRead clock) := by
  have hsplit : s.queue.expired (clock s.queue.ticks) ++
      s.queue.timers.dropWhile (·.less (clock s.queue.ticks) UINTPTR_MAX) = s.queue.timers :=
    List.takeWhile_append_dropWhile
  have hlive : s.live = s.queue.timers := by
    unfold Lifecycle.live
    rw [hi]
    exact List.append_nil _
  have hperm : (s.beginRead clock).live.Perm s.live := by
    rw [hlive, ← hsplit]
    exact List.perm_append_comm
  constructor
  · exact ordered_of_timers (q := s.queue.getExpired (clock s.queue.ticks))
      (ordered_getExpired h.ordered _) rfl
  · intro e he
    exact h.ordered.addr e ((List.takeWhile_sublist _).subset he)
  · exact Books.of_perm ⟨h.books.distinct, h.books.partition, h.books.kept⟩
      ((hperm.map _).map _)
  · exact h.ran_lt
  · exact h.once
  · intro n hn hrep
    have hs := h.settled n hn hrep
    rw [hi] at hs
    exact hs

theorem sound_runCallback {done todo : List Entry} {e : Entry} (h : Sound s)
    (hp : s.phase = .calling done (e :: todo)) : Sound (s.runCallback done e todo) := by
  have hbatch : (s.runCallback done e todo).phase.batch = s.phase.batch := by
    rw [hp]
    show (done ++ [e]) ++ todo = done ++ e :: todo
    simp
  have hlive : (s.runCallback done e todo).live = s.live := by
    unfold Lifecycle.live
    rw [hbatch]
    rfl
  have he : e ∈ s.live := by
    apply List.mem_append_right
    rw [hp]
    exact List.mem_append_right _ List.mem_cons_self
  have hnew (hrep : (s.origin (s.numberOf e)).repeats = false) : s.numberOf e ∉ s.ran := by
    intro hran
    rcases h.settled _ hran hrep with hs | hd
    · rw [hp] at hs
      have hnd := h.books.numbers_nodup
      unfold Lifecycle.live at hnd
      rw [hp] at hnd
      simp only [Phase.batch, List.map_append, List.map_map] at hnd
      have hnd := (List.nodup_append.mp hnd).2.1
      exact (List.nodup_append.mp hnd).2.2 _ hs _ List.mem_cons_self rfl
    · exact h.books.not_deleted (List.mem_map_of_mem he) hd
  constructor
  · exact h.ordered
  · rw [hbatch]
    exact h.below
  · rw [hlive]
    exact ⟨h.books.distinct, h.books.partition, h.books.kept⟩
  · intro n hn
    rcases List.mem_append.mp hn with hn | hn
    · exact h.ran_lt n hn
    · rw [List.mem_singleton.mp hn]
      exact h.books.number_lt (List.mem_map_of_mem he)
  · intro n hrep
    show (s.ran ++ [s.numberOf e]).count n ≤ 1
    rw [List.count_append, List.count_singleton]
    by_cases hn : s.numberOf e = n
    · subst hn
      rw [List.count_eq_zero.mpr (hnew hrep)]
      simp
    · have := h.once n hrep
      simp [hn]
      exact this
  · intro n hn hrep
    show n ∈ (done ++ [e]).map s.numberOf ∨ _
    rw [List.map_append, List.mem_append]
    rcases List.mem_append.mp hn with hn | hn
    · rcases h.settled n hn hrep with hs | hd
      · rw [hp] at hs
        exact Or.inl (Or.inl hs)
      · exact Or.inr hd
    · exact Or.inl (Or.inr hn)

theorem sound_endCalls {done : List Entry} (h : Sound s) (hp : s.phase = .calling done []) :
    Sound (s.endCalls done) := by
  have hbatch : s.phase.batch = done := by
    rw [hp]
    exact List.append_nil _
  have hlive : (s.endCalls done).live = s.live := by
    unfold Lifecycle.live
    rw [hbatch]
    rfl
  constructor
  · exact ordered_of_timers h.ordered rfl
  · show ∀ e ∈ done, _
    rw [← hbatch]
    exact h.below
  · rw [hlive]
    exact ⟨h.books.distinct, h.books.partition, h.books.kept⟩
  · exact h.ran_lt
  · exact h.once
  · intro n hn hrep
    have hs := h.settled n hn hrep
    rw [hp] at hs
    exact hs

variable (clock s) in
/-- The set after one round of `Reset`: a repeating timer is back, with the clock read
in that round, and a one-shot timer is not. -/
theorem resetOne_timers (e : Entry) (todo : List Entry) :
    (s.resetOne clock e todo).queue.timers = if e.timer.repeats then
      insertEntry ⟨(e.timer.restart (clock s.queue.ticks)).expiration,
        e.timer.restart (clock s.queue.ticks)⟩ s.queue.timers
      else s.queue.timers := by
  show ((s.queue.restartExpired clock e.timer).rearm clock).timers = _
  rw [rearm_timers]
  unfold restartExpired
  split
  · rfl
  · rfl

/-- One round of `Reset` keeps the books: the timer goes back to the set, or it is deleted. -/
theorem books_resetOne {e : Entry} {todo : List Entry}
    (h : Books s ((e :: (s.queue.timers ++ todo)).map Entry.timer)) :
    Books (s.resetOne clock e todo)
      (((s.resetOne clock e todo).queue.timers ++ todo).map Entry.timer) := by
  rw [resetOne_timers]
  by_cases hrep : e.timer.repeats = true
  · have hother (x : Entry) (hx : x ∈ s.queue.timers) : x.timer.addr ≠ e.timer.addr := by
      intro hxe
      have hnd := h.distinct
      rw [List.map_cons, List.map_cons, List.nodup_cons] at hnd
      apply hnd.1
      rw [← hxe]
      exact List.mem_map_of_mem (List.mem_map_of_mem (List.mem_append_left _ hx))
    have hdel : (s.resetOne clock e todo).deleted = s.deleted := if_pos hrep
    have hback : Books s (List.map Entry.timer
        (insertEntry ⟨(e.timer.restart (clock s.queue.ticks)).expiration,
          e.timer.restart (clock s.queue.ticks)⟩ s.queue.timers ++ todo)) := by
      apply h.of_perm
      have hins := insertEntry_perm (e := ⟨(e.timer.restart (clock s.queue.ticks)).expiration,
        e.timer.restart (clock s.queue.ticks)⟩) (l := s.queue.timers) fun x hx => by
          rw [addr_of_fixed (restart_fixed e.timer _)]
          exact hother x hx
      have := ((hins.append_right todo).map Entry.timer).map Timer.fixed
      simpa only [List.cons_append, List.map_cons, restart_fixed] using this
    rw [if_pos hrep]
    exact ⟨hback.distinct, by rw [hdel]; exact hback.partition, hback.kept⟩
  · rw [if_neg hrep]
    exact h.delete (if_neg hrep) rfl rfl rfl

theorem sound_resetOne {e : Entry} {todo : List Entry} (h : Sound s)
    (hp : s.phase = .resetting (e :: todo)) : Sound (s.resetOne clock e todo) := by
  have hlive : s.live = s.queue.timers ++ e :: todo := by
    unfold Lifecycle.live
    rw [hp]
    rfl
  have hbelow : ∀ d ∈ e :: todo, d.timer.addr < UINTPTR_MAX := by
    have := h.below
    rwa [hp] at this
  have he : e ∈ s.live := by
    rw [hlive]
    exact List.mem_append_right _ List.mem_cons_self
  have hfront : (e :: (s.queue.timers ++ todo)).Perm s.live := by
    rw [hlive]
    exact List.perm_middle.symm
  have hserved (n : Nat) (hn : n ∈ s.ran) (hrep : (s.origin n).repeats = false) :
      n = s.numberOf e ∨ n ∈ todo.map s.numberOf ∨ n ∈ s.deleted := by
    rcases h.settled n hn hrep with hs | hd
    · rw [hp] at hs
      rcases List.mem_cons.mp hs with rfl | hs
      · exact Or.inl rfl
      · exact Or.inr (Or.inl hs)
    · exact Or.inr (Or.inr hd)
  constructor
  · exact ordered_of_timers (ordered_restartExpired h.ordered (hbelow e List.mem_cons_self))
      (rearm_timers _)
  · intro d hd
    exact hbelow d (List.mem_cons_of_mem _ hd)
  · exact books_resetOne (h.books.of_perm ((hfront.map _).map _))
  · exact h.ran_lt
  · exact h.once
  · intro n hn hrep
    show n ∈ todo.map s.numberOf ∨ n ∈ (if e.timer.repeats then s.deleted else
      s.deleted ++ [s.numberOf e])
    rcases hserved n hn hrep with rfl | hs | hd
    · have hone : ¬e.timer.repeats = true := by
        have hk := h.books.kept e.timer (List.mem_map_of_mem he)
        have hr : (s.origin (s.numberOf e)).repeats = e.timer.repeats := by
          have := congrArg Timer.repeats hk
          exact this
        rw [← hr, show (s.origin (s.numberOf e)).repeats = false from hrep]
        decide
      rw [if_neg hone]
      exact Or.inr (List.mem_append_right _ (List.mem_singleton.mpr rfl))
    · exact Or.inl hs
    · right
      split
      · exact hd
      · exact List.mem_append_left _ hd

theorem sound_finish (h : Sound s) (hp : s.phase = .resetting []) :
    Sound { s with phase := .idle } := by
  have hlive : ({ s with phase := .idle } : Lifecycle).live = s.live := by
    unfold Lifecycle.live
    rw [hp]
    rfl
  constructor
  · exact h.ordered
  · simp [Phase.batch]
  · rw [hlive]
    exact ⟨h.books.distinct, h.books.partition, h.books.kept⟩
  · exact h.ran_lt
  · exact h.once
  · intro n hn hrep
    have hs := h.settled n hn hrep
    rw [hp] at hs
    exact hs

theorem step_sound {s' : Lifecycle} {a : LifeStep} (h : Sound s) (hstep : s.Step clock a s') :
    Sound s' := by
  cases a with
  | addTimerInLoop t =>
    obtain ⟨-, hlt, hfresh, rfl⟩ := hstep
    exact sound_addTimer h hlt hfresh
  | handleRead =>
    obtain ⟨hi, rfl⟩ := hstep
    exact sound_beginRead h hi
  | run =>
    obtain ⟨done, e, todo, hp, rfl⟩ := hstep
    exact sound_runCallback h hp
  | endCalls =>
    obtain ⟨done, hp, rfl⟩ := hstep
    exact sound_endCalls h hp
  | restart =>
    obtain ⟨e, todo, hp, rfl⟩ := hstep
    exact sound_resetOne h hp
  | finish =>
    obtain ⟨hp, rfl⟩ := hstep
    exact sound_finish h hp

end Steps

/-! ## Intervals -/

namespace Timer

/-- A million times the interval, in units of two to its exponent. -/
def product (t : Timer) : Nat := t.interval.significand.toNat * 1000000

/-- The whole microseconds nearest to the interval. -/
def micros (t : Timer) : Nat := Double.nearest t.product (-t.interval.exponent).toNat

/-- The interval is below `2 ^ 52` microseconds, about 142 years. -/
def InRange (t : Timer) : Prop :=
  t.interval.exponent ≤ 0 ∧ t.product < 2 ^ (52 + (-t.interval.exponent).toNat)

/-- A million times the interval falls short of its whole microseconds by at most half of
the last bit of a double. -/
def Reaches (t : Timer) : Prop :=
  Double.Reaches t.product (-t.interval.exponent).toNat t.micros

instance (t : Timer) : Decidable t.InRange := inferInstanceAs (Decidable (_ ∧ _))

instance (t : Timer) : Decidable t.Reaches := inferInstanceAs (Decidable (_ ≤ _))

/-- `AddTime` adds the whole microseconds of the interval if and only if the interval
reaches them. -/
theorem addTime_eq_iff {t : Timer} (hrep : t.repeats = true) (hin : t.InRange) (now : Int) :
    addTime now t.interval = now + t.micros ↔ t.Reaches := by
  have hpos : 0 < t.interval.significand := of_decide_eq_true hrep
  have hsig : t.interval.significand * 1000000 = (t.product : Int) := by
    unfold product
    rw [Int.natCast_mul, Int.toNat_of_nonneg (Int.le_of_lt hpos)]
    rfl
  have hexp : t.interval.exponent + 0 = -((-t.interval.exponent).toNat : Int) := by
    have := hin.1
    omega
  have hmul : t.interval.mul kMicroSecondsPerSecond =
      Double.round t.product (-((-t.interval.exponent).toNat : Int)) :=
    (congrArg₂ Double.round hsig hexp :)
  unfold addTime
  rw [hmul, Int.add_right_inj]
  exact Double.toInt64_round_eq_iff hin.2

/-- A repeating timer has an interval that comes out as its whole microseconds. -/
def Punctual (t : Timer) : Prop := t.repeats = true → t.InRange ∧ t.Reaches

theorem restart_punctual {t : Timer} (h : t.Punctual) (hrep : t.repeats = true) (now : Int) :
    t.restart now = { t with expiration := now + t.micros } := by
  obtain ⟨hin, hreach⟩ := h hrep
  unfold restart
  rw [if_pos hrep, (addTime_eq_iff hrep hin now).mpr hreach]

theorem punctual_of_fixed {t u : Timer} (h : t.fixed = u.fixed) (ht : t.Punctual) :
    u.Punctual := by
  have hi : t.fixed.interval = u.fixed.interval := congrArg Timer.interval h
  change t.interval = u.interval at hi
  unfold Punctual repeats InRange Reaches micros product at ht ⊢
  rwa [← hi]

end Timer

/-- Every repeating timer that is added is punctual. -/
def LifeStep.Punctual : LifeStep → Prop
  | .addTimerInLoop t => t.Punctual
  | _ => True

section Punctual

variable {clock : Nat → Int} {s : Lifecycle}

theorem step_punctual {s' : Lifecycle} {a : LifeStep} (h : ∀ n, (s.origin n).Punctual)
    (hstep : s.Step clock a s') (ha : a.Punctual) (n : Nat) : (s'.origin n).Punctual := by
  cases a with
  | addTimerInLoop t =>
    obtain ⟨-, -, -, rfl⟩ := hstep
    by_cases hn : n = s.added
    · subst hn
      exact (congrArg Timer.Punctual (Function.update_self ..)).mpr ha
    · exact (congrArg Timer.Punctual (Function.update_of_ne hn ..)).mpr (h n)
  | handleRead =>
    obtain ⟨-, rfl⟩ := hstep
    exact h n
  | run =>
    obtain ⟨done, e, todo, -, rfl⟩ := hstep
    exact h n
  | endCalls =>
    obtain ⟨done, -, rfl⟩ := hstep
    exact h n
  | restart =>
    obtain ⟨e, todo, -, rfl⟩ := hstep
    exact h n
  | finish =>
    obtain ⟨-, rfl⟩ := hstep
    exact h n

/-- In a run of punctual additions all live timers are punctual. -/
theorem run_punctual {steps : List LifeStep}
    (hr : Run (fun s a s' => Lifecycle.Step clock s a s' ∧ a.Punctual) Lifecycle.new steps s) :
    Sound s ∧ ∀ e ∈ s.live, e.timer.Punctual := by
  have h := hr.invariant (P := fun s => Sound s ∧ ∀ n, (s.origin n).Punctual)
    (fun _ _ _ hs hstep => ⟨step_sound hs.1 hstep.1, step_punctual hs.2 hstep.1 hstep.2⟩)
    ⟨sound_new, fun _ hrep => absurd hrep Bool.false_ne_true⟩
  exact ⟨h.1, fun e he => Timer.punctual_of_fixed (h.1.books.kept _ (List.mem_map_of_mem he))
    (h.2 _)⟩

end Punctual

/-! ## One `HandleRead` -/

section Read

variable {clock : Nat → Int} {s t : Lifecycle}

theorem mem_insertEntry_of_mem {e x : Entry} {l : List Entry} (h : x ∈ l) :
    x ∈ insertEntry e l := by
  induction l with
  | nil => cases h
  | cons y ys ih =>
    unfold insertEntry
    split
    · exact List.mem_cons_of_mem _ h
    · split
      · rcases List.mem_cons.mp h with rfl | hx
        · exact List.mem_cons_self
        · exact List.mem_cons_of_mem _ (ih hx)
      · exact h

/-- What becomes of a timer of the batch on the way from `s` to `t`: a one-shot timer
is deleted; a repeating one has its round in `Reset` and is in the set at the end, with
the clock read in that round plus its interval. -/
structure Disposed (clock : Nat → Int) (s : Lifecycle) (inner : List LifeStep) (t : Lifecycle)
    (e : Entry) : Prop where
  oneShot : e.timer.repeats = false → s.numberOf e ∈ t.deleted
  repeating : e.timer.repeats = true → ∃ pre post v rest, inner = pre ++ .restart :: post ∧
    Run (Lifecycle.Step clock) s pre v ∧ v.phase = .resetting (e :: rest) ∧
    ∃ d ∈ t.queue.timers, t.numberOf d = s.numberOf e ∧
      d.timer = { e.timer with expiration := clock v.queue.ticks + e.timer.micros }

theorem Disposed.cons {u : Lifecycle} {a : LifeStep} {inner : List LifeStep} {e : Entry}
    (h : Disposed clock u inner t e) (hstep : s.Step clock a u) (hn : u.numberOf e = s.numberOf e) :
    Disposed clock s (a :: inner) t e := by
  constructor
  · intro hrep
    rw [← hn]
    exact h.oneShot hrep
  · intro hrep
    obtain ⟨pre, post, v, rest, rfl, hr, hv, d, hd, hdn, hdt⟩ := h.repeating hrep
    exact ⟨a :: pre, post, v, rest, rfl, .cons hstep hr, hv, d, hd, hdn.trans hn, hdt⟩

/-- A turn of the loop over the expired timers loses nothing. -/
theorem resetOne_keeps (e : Entry) (todo : List Entry) :
    s.deleted ⊆ (s.resetOne clock e todo).deleted ∧
      s.queue.timers ⊆ (s.resetOne clock e todo).queue.timers := by
  refine ⟨?_, ?_⟩
  · intro n hn
    show n ∈ if e.timer.repeats then s.deleted else s.deleted ++ [s.numberOf e]
    split
    · exact hn
    · exact List.mem_append_left _ hn
  · intro x hx
    rw [resetOne_timers]
    split
    · exact mem_insertEntry_of_mem hx
    · exact hx

/-- What the turn of a timer does and the rest of the loop keeps. -/
theorem Disposed.of_resetOne {e : Entry} {rest : List Entry} {inner : List LifeStep}
    (hs : Sound s) (hpu : e.timer.Punctual) (hp : s.phase = .resetting (e :: rest))
    (hnum : t.number = s.number)
    (hdel : (s.resetOne clock e rest).deleted ⊆ t.deleted)
    (htim : (s.resetOne clock e rest).queue.timers ⊆ t.queue.timers) :
    Disposed clock s (.restart :: inner) t e := by
  constructor
  · intro hrep
    apply hdel
    show _ ∈ if e.timer.repeats then s.deleted else s.deleted ++ [s.numberOf e]
    rw [if_neg (by rw [hrep]; decide)]
    exact List.mem_append_right _ (List.mem_singleton.mpr rfl)
  · intro hrep
    refine ⟨[], inner, s, rest, rfl, .nil s, hp,
      ⟨(e.timer.restart (clock s.queue.ticks)).expiration,
        e.timer.restart (clock s.queue.ticks)⟩, ?_, ?_, ?_⟩
    · apply htim
      rw [resetOne_timers, if_pos hrep]
      apply (insertEntry_perm ?_).symm.subset List.mem_cons_self
      intro x hx
      rw [addr_of_fixed (restart_fixed e.timer _)]
      intro hxd
      have hnd := hs.books.distinct
      unfold Lifecycle.live at hnd
      rw [hp, List.map_append, List.map_append] at hnd
      exact (List.nodup_append.mp hnd).2.2 _
        (List.mem_map_of_mem (List.mem_map_of_mem hx)) _ List.mem_cons_self hxd
    · unfold Lifecycle.numberOf
      rw [hnum, addr_of_fixed (restart_fixed e.timer _)]
    · exact Timer.restart_punctual hpu hrep _

/-- `Reset` from any point to its end. -/
theorem reset_to_end {inner : List LifeStep} {todo : List Entry} (hs : Sound s)
    (hpu : ∀ e ∈ todo, e.timer.Punctual) (hp : s.phase = .resetting todo) (hno : .finish ∉ inner)
    (hr : Run (Lifecycle.Step clock) s (inner ++ [.finish]) t) :
    t.ran = s.ran ∧ t.number = s.number ∧ s.deleted ⊆ t.deleted ∧
      s.queue.timers ⊆ t.queue.timers ∧ ∀ e ∈ todo, Disposed clock s inner t e := by
  induction inner generalizing s todo with
  | nil =>
    cases hr with
    | cons hstep hrest =>
      obtain ⟨hnil, rfl⟩ := hstep
      cases hrest
      cases hp.symm.trans hnil
      exact ⟨rfl, rfl, List.Subset.refl _, List.Subset.refl _, by simp⟩
  | cons a inner ih =>
    obtain ⟨hna, hin⟩ := not_or.mp (mt List.mem_cons.mpr hno)
    cases hr with
    | cons hstep hrest =>
      have hs1 := step_sound hs hstep
      cases a with
      | addTimerInLoop u =>
        obtain ⟨huser, -⟩ := hstep
        rcases huser with hi | ⟨done, rest, -, hc⟩
        · cases hp.symm.trans hi
        · cases hp.symm.trans hc
      | handleRead => cases hp.symm.trans hstep.1
      | run =>
        obtain ⟨done, e, rest, hc, -⟩ := hstep
        cases hp.symm.trans hc
      | endCalls =>
        obtain ⟨done, hc, -⟩ := hstep
        cases hp.symm.trans hc
      | finish => exact absurd rfl hna
      | restart =>
        have hround := hstep
        obtain ⟨e, rest, hc, rfl⟩ := hstep
        cases hp.symm.trans hc
        obtain ⟨hran, hnum, hdel, htim, hdisp⟩ :=
          ih hs1 (fun d hd => hpu d (List.mem_cons_of_mem _ hd)) rfl hin hrest
        obtain ⟨hdel₁, htim₁⟩ := resetOne_keeps e rest
        refine ⟨hran, hnum, fun n hn => hdel (hdel₁ hn), fun x hx => htim (htim₁ hx), ?_⟩
        intro d hd
        rcases List.mem_cons.mp hd with rfl | hd
        · exact .of_resetOne hs (hpu _ List.mem_cons_self) hp hnum hdel htim
        · exact (hdisp d hd).cons hround rfl

/-- `HandleRead` from any point of its loop over the callbacks to its end. -/
theorem calls_to_end {inner : List LifeStep} {done todo : List Entry} (hs : Sound s)
    (hpu : ∀ e ∈ done ++ todo, e.timer.Punctual) (hp : s.phase = .calling done todo)
    (hno : .finish ∉ inner)
    (hr : Run (Lifecycle.Step clock) s (inner ++ [.finish]) t) :
    t.ran = s.ran ++ todo.map s.numberOf ∧ ∀ e ∈ done ++ todo, Disposed clock s inner t e := by
  induction inner generalizing s done todo with
  | nil =>
    cases hr with
    | cons hstep _ => cases hp.symm.trans hstep.1
  | cons a inner ih =>
    obtain ⟨hna, hin⟩ := not_or.mp (mt List.mem_cons.mpr hno)
    cases hr with
    | cons hstep hrest =>
      have hs1 := step_sound hs hstep
      cases a with
      | addTimerInLoop u =>
        have hadd := hstep
        obtain ⟨-, -, hfresh, rfl⟩ := hstep
        obtain ⟨hran, hdisp⟩ := ih hs1 hpu hp hin hrest
        have hsame (e : Entry) (he : e ∈ done ++ todo) :
            (s.addTimer clock u).numberOf e = s.numberOf e := by
          apply Function.update_of_ne
          apply hfresh e
          apply List.mem_append_right
          rw [hp]
          exact he
        constructor
        · rw [hran]
          exact congrArg (s.ran ++ ·) (List.map_congr_left fun e he =>
            hsame e (List.mem_append_right _ he))
        · intro e he
          exact (hdisp e he).cons hadd (hsame e he)
      | handleRead => cases hp.symm.trans hstep.1
      | run =>
        have hrun := hstep
        obtain ⟨done', e, rest, hc, rfl⟩ := hstep
        cases hp.symm.trans hc
        obtain ⟨hran, hdisp⟩ := ih hs1 (by simpa using hpu) rfl hin hrest
        constructor
        · rw [hran]
          show (s.ran ++ [s.numberOf e]) ++ rest.map s.numberOf = _
          rw [List.append_assoc]
          rfl
        · intro d hd
          apply (hdisp d (by simpa using hd)).cons hrun
          rfl
      | endCalls =>
        have hend := hstep
        obtain ⟨done', hc, rfl⟩ := hstep
        cases hp.symm.trans hc
        obtain ⟨hran, -, -, -, hdisp⟩ := reset_to_end hs1 (by simpa using hpu) rfl hin hrest
        constructor
        · rw [hran, List.map_nil, List.append_nil]
          rfl
        · intro d hd
          rw [List.append_nil] at hd
          exact (hdisp d hd).cons hend rfl
      | restart =>
        obtain ⟨e, rest, hc, -⟩ := hstep
        cases hp.symm.trans hc
      | finish => exact absurd rfl hna

/-- Timers are neither lost, duplicated nor fired early. After every run whose repeating
timers are punctual: the keys of the set are the expirations of its timers; the set, the batch
and the deleted timers hold every timer ever added exactly once; a one-shot timer has run at
most once; and a `HandleRead` that begins here runs the callbacks of the timers that are due,
each once and in the order of their expirations, and disposes of each of them. -/
theorem timers_conserved {steps : List LifeStep}
    (hr : Run (fun s a s' => Lifecycle.Step clock s a s' ∧ a.Punctual) Lifecycle.new steps s) :
    (∀ e ∈ s.queue.timers, e.time = e.timer.expiration) ∧
    (s.queue.timers.map s.numberOf ++ s.phase.batch.map s.numberOf ++ s.deleted).Perm
      (List.range s.added) ∧
    (∀ n, (s.origin n).repeats = false → s.ran.count n ≤ 1) ∧
    ∀ inner t, .finish ∉ inner →
      Run (Lifecycle.Step clock) s (.handleRead :: inner ++ [.finish]) t →
      ∃ batch, batch = s.queue.timers.filter
          (fun e => e.timer.expiration ≤ clock s.queue.ticks) ∧
        t.ran = s.ran ++ batch.map s.numberOf ∧ (batch.map s.numberOf).Nodup ∧
        (batch.Pairwise fun a b => a.timer.expiration ≤ b.timer.expiration) ∧
        ∀ e ∈ batch, Disposed clock s (.handleRead :: inner) t e := by
  obtain ⟨hs, hlive⟩ := run_punctual hr
  refine ⟨fun e he => (hs.ordered.key e he).symm, ?_, hs.once, ?_⟩
  · have hpart := hs.books.partition
    unfold Lifecycle.live at hpart
    rw [List.map_map, List.map_append] at hpart
    exact hpart
  · intro inner t hno hread
    refine ⟨_, rfl, ?_⟩
    rw [← expired_eq_filter hs.ordered]
    have hsub : (s.queue.expired (clock s.queue.ticks)).Sublist s.queue.timers :=
      List.takeWhile_sublist _
    cases hread with
    | cons hstep hrest =>
      have hs1 := step_sound hs hstep
      have hbegin := hstep
      obtain ⟨hi, rfl⟩ := hstep
      have hpu : ∀ e ∈ [] ++ s.queue.expired (clock s.queue.ticks), e.timer.Punctual :=
        fun e he => hlive e (List.mem_append_left _ (hsub.subset he))
      obtain ⟨hran, hdisp⟩ := calls_to_end hs1 hpu rfl hno hrest
      refine ⟨hran, ?_, ?_, ?_⟩
      · have hnd := hs.books.numbers_nodup
        unfold Lifecycle.live at hnd
        rw [List.map_map, List.map_append] at hnd
        exact (List.nodup_append.mp hnd).1.sublist (hsub.map _)
      · apply (hs.ordered.sorted.sublist hsub).imp_of_mem
        intro a b ha hb hab
        rw [hs.ordered.key a (hsub.subset ha), hs.ordered.key b (hsub.subset hb)]
        exact hab
      · intro e he
        exact (hdisp e he).cons hbegin rfl

end Read

/-- The interval of a one-shot timer, half a second, and 4.1 seconds. -/
def noInterval : Double := ⟨0, 0, by decide⟩

def halfSecond : Double := ⟨1, -1, by decide⟩

def fourPointOne : Double := ⟨4616189618054758, -50, by decide⟩

/-- A one-shot timer due at 1000 and a repeating one due at 1200; both have expired
when `HandleRead` reads 1500, and the first callback adds a third timer. -/
theorem timers_conserved_with_reentrant_add :
    ∃ s t inner, Run (fun s a s' => Lifecycle.Step (fun _ => 1500) s a s' ∧ a.Punctual)
        Lifecycle.new
        [.addTimerInLoop ⟨2, 1200, halfSecond⟩, .addTimerInLoop ⟨1, 1000, noInterval⟩] s ∧
      Run (Lifecycle.Step fun _ => 1500) s (.handleRead :: inner ++ [.finish]) t ∧
      t.ran = [1, 0] ∧ Disposed (fun _ => 1500) s (.handleRead :: inner) t
        ⟨1200, ⟨2, 1200, halfSecond⟩⟩ := by
  let clock : Nat → Int := fun _ => 1500
  let s := (Lifecycle.new.addTimer clock ⟨2, 1200, halfSecond⟩).addTimer clock
    ⟨1, 1000, noInterval⟩
  have hr : Run (fun s a s' => Lifecycle.Step clock s a s' ∧ a.Punctual) Lifecycle.new
      [.addTimerInLoop ⟨2, 1200, halfSecond⟩, .addTimerInLoop ⟨1, 1000, noInterval⟩] s := by
    apply Run.cons ⟨⟨Or.inl rfl, by decide, by decide, rfl⟩, fun _ => by decide⟩
    exact Run.single ⟨⟨Or.inl rfl, by decide, by decide, rfl⟩, fun h => absurd h (by decide)⟩
  have hread : ∃ t, Run (Lifecycle.Step clock) s
      (.handleRead :: [.run, .addTimerInLoop ⟨3, 1100, noInterval⟩, .run, .endCalls, .restart,
        .restart] ++ [.finish]) t := by
    refine ⟨_, .cons ⟨rfl, rfl⟩ (.cons ⟨_, _, _, rfl, rfl⟩
      (.cons ⟨Or.inr ⟨_, _, ?_, rfl⟩, ?_, ?_, rfl⟩
      (.cons ⟨_, _, _, rfl, rfl⟩ (.cons ⟨_, rfl, rfl⟩ (.cons ⟨_, _, rfl, rfl⟩
        (.cons ⟨_, _, rfl, rfl⟩ (.single ⟨rfl, rfl⟩)))))))⟩
    · decide
    · decide
    · decide
  obtain ⟨t, ht⟩ := hread
  obtain ⟨batch, hbatch, hran, -, -, hdisp⟩ := (timers_conserved hr).2.2.2 _ t (by decide) ht
  have hlist : batch = [⟨1000, ⟨1, 1000, noInterval⟩⟩, ⟨1200, ⟨2, 1200, halfSecond⟩⟩] := by
    rw [hbatch]
    decide
  rw [hlist] at hran hdisp
  exact ⟨_, t, _, hr, ht, hran, hdisp _ (by decide)⟩

/-- A timer every 4.1 seconds that is due at 1000 is set back by `HandleRead` at 1500 to
4099999 microseconds later. -/
theorem restarted_early :
    ∃ s t, Run (Lifecycle.Step fun _ => 1500) Lifecycle.new
        [.addTimerInLoop ⟨2, 1000, fourPointOne⟩] s ∧
      Run (Lifecycle.Step fun _ => 1500) s
        (.handleRead :: [.run, .endCalls, .restart] ++ [.finish]) t ∧
      (⟨2, 1000, fourPointOne⟩ : Timer).micros = 4100000 ∧
      t.queue.timers = [⟨1500 + 4099999, ⟨2, 1500 + 4099999, fourPointOne⟩⟩] ∧
      ¬Disposed (fun _ => 1500) s (.handleRead :: [.run, .endCalls, .restart]) t
        ⟨1000, ⟨2, 1000, fourPointOne⟩⟩ := by
  let clock : Nat → Int := fun _ => 1500
  let s := Lifecycle.new.addTimer clock ⟨2, 1000, fourPointOne⟩
  have hr : Run (Lifecycle.Step clock) Lifecycle.new [.addTimerInLoop ⟨2, 1000, fourPointOne⟩] s :=
    Run.single ⟨Or.inl rfl, by decide, by decide, rfl⟩
  have hread : ∃ t, Run (Lifecycle.Step clock) s
      (.handleRead :: [.run, .endCalls, .restart] ++ [.finish]) t ∧
      t.queue.timers = [⟨1500 + 4099999, ⟨2, 1500 + 4099999, fourPointOne⟩⟩] :=
    ⟨_, .cons ⟨rfl, rfl⟩ (.cons ⟨_, _, _, rfl, rfl⟩ (.cons ⟨_, rfl, rfl⟩
      (.cons ⟨_, _, rfl, rfl⟩ (.single ⟨rfl, rfl⟩)))), by decide +kernel⟩
  obtain ⟨t, ht, htimers⟩ := hread
  refine ⟨s, t, hr, ht, by decide +kernel, htimers, fun hd => ?_⟩
  obtain ⟨pre, post, v, rest, -, -, -, d, hd, -, hdt⟩ := hd.repeating (by decide)
  rw [htimers, List.mem_singleton] at hd
  rw [hd] at hdt
  exact absurd (congrArg Timer.expiration hdt) (by decide +kernel)

/-! ## The steps are those of `handleRead` -/

section Refinement

variable {clock : Nat → Int} {s : Lifecycle}

def Lifecycle.addrs (s : Lifecycle) : List Nat := s.live.map fun e => e.timer.addr

theorem adds_run (clock : Nat → Int) {ts : List Timer} (hu : s.InUserCode)
    (hlt : ∀ t ∈ ts, t.addr < UINTPTR_MAX)
    (hfresh : (s.addrs ++ ts.map Timer.addr).Nodup) :
    ∃ t, Run (Lifecycle.Step clock) s (ts.map .addTimerInLoop) t ∧ t.phase = s.phase ∧
      t.queue = s.queue.addTimers clock ts ∧ t.addrs.Perm (s.addrs ++ ts.map Timer.addr) := by
  induction ts generalizing s with
  | nil => exact ⟨s, .nil s, rfl, rfl, by simp⟩
  | cons x xs ih =>
    have hx : ∀ e ∈ s.live, e.timer.addr ≠ x.addr := by
      intro e he
      exact (List.nodup_append.mp hfresh).2.2 _ (List.mem_map_of_mem he) _ List.mem_cons_self
    have hins := insertEntry_perm (e := ⟨x.expiration, x⟩) fun y hy =>
      hx y (List.mem_append_left _ hy)
    have haddrs : (s.addTimer clock x).addrs.Perm (s.addrs ++ [x.addr]) := by
      unfold Lifecycle.addrs Lifecycle.live
      show ((s.queue.addTimerInLoop clock x).timers ++ s.phase.batch |>.map _).Perm _
      rw [addTimerInLoop_timers]
      exact ((hins.append_right _).map _).trans (List.perm_append_singleton _ _).symm
    have hall : ((s.addTimer clock x).addrs ++ xs.map Timer.addr).Perm
        (s.addrs ++ (x :: xs).map Timer.addr) := by
      have := haddrs.append_right (xs.map Timer.addr)
      rwa [List.append_assoc] at this
    obtain ⟨t, hr, hph, hq, hp⟩ := ih (s := s.addTimer clock x) hu
      (fun y hy => hlt y (List.mem_cons_of_mem _ hy)) (hall.nodup_iff.mpr hfresh)
    exact ⟨t, .cons ⟨hu, hlt x List.mem_cons_self, hx, rfl⟩ hr, hph, hq, hp.trans hall⟩

theorem callbacks_run (clock : Nat → Int) {adds : Timer → List Timer} {done todo : List Entry}
    (hp : s.phase = .calling done todo) (hlt : ∀ e, ∀ t ∈ adds e, t.addr < UINTPTR_MAX)
    (hfresh : (s.addrs ++ (todo.flatMap fun e => adds e.timer).map Timer.addr).Nodup) :
    ∃ steps t, .finish ∉ steps ∧ Run (Lifecycle.Step clock) s steps t ∧
      t.phase = .calling (done ++ todo) [] ∧ t.queue = s.queue.runCallbacks clock adds todo := by
  induction todo generalizing s done with
  | nil => exact ⟨[], s, by simp, .nil s, by rw [hp, List.append_nil], rfl⟩
  | cons e todo ih =>
    have hlive : (s.runCallback done e todo).addrs = s.addrs := by
      unfold Lifecycle.addrs Lifecycle.live
      rw [hp]
      simp [Lifecycle.runCallback, Phase.batch]
    rw [List.flatMap_cons, List.map_append, ← List.append_assoc, ← hlive] at hfresh
    obtain ⟨u, hru, hpu, hqu, hau⟩ := adds_run clock (s := s.runCallback done e todo)
      (Or.inr ⟨done ++ [e], todo, by simp, rfl⟩) (hlt e.timer) (List.nodup_append.mp hfresh).1
    obtain ⟨steps, t, hno, hrt, hpt, hqt⟩ := ih (s := u) hpu
      ((hau.append_right _).nodup_iff.mpr hfresh)
    refine ⟨.run :: ((adds e.timer).map .addTimerInLoop ++ steps), t, ?_,
      .cons ⟨done, e, todo, hp, rfl⟩ (hru.append hrt), ?_, ?_⟩
    · simp [hno]
    · rw [hpt]
      simp
    · rw [hqt, hqu]
      rfl

theorem resets_run (clock : Nat → Int) {todo : List Entry} (hp : s.phase = .resetting todo) :
    ∃ steps t, .finish ∉ steps ∧ Run (Lifecycle.Step clock) s steps t ∧ t.phase = .resetting [] ∧
      t.queue = s.queue.reset clock todo := by
  induction todo generalizing s with
  | nil => exact ⟨[], s, by simp, .nil s, hp, rfl⟩
  | cons e todo ih =>
    obtain ⟨steps, t, hno, hr, hpt, hq⟩ := ih (s := s.resetOne clock e todo) rfl
    exact ⟨.restart :: steps, t, by simp [hno], .cons ⟨e, todo, hp, rfl⟩ hr, hpt, hq⟩

/-- Every `handleRead` whose callbacks add new timers is a run of the steps. -/
theorem handleRead_run (adds : Timer → List Timer) (hi : s.phase = .idle)
    (hlt : ∀ e, ∀ t ∈ adds e, t.addr < UINTPTR_MAX)
    (hfresh : (s.addrs ++ ((s.queue.expired (clock s.queue.ticks)).flatMap fun e =>
      adds e.timer).map Timer.addr).Nodup) :
    ∃ inner t, .finish ∉ inner ∧
      Run (Lifecycle.Step clock) s (.handleRead :: inner ++ [.finish]) t ∧ t.phase = .idle ∧
      t.queue = s.queue.handleRead clock adds := by
  have haddrs : (s.beginRead clock).addrs.Perm s.addrs := by
    have hsplit : s.queue.expired (clock s.queue.ticks) ++
        s.queue.timers.dropWhile (·.less (clock s.queue.ticks) UINTPTR_MAX) = s.queue.timers :=
      List.takeWhile_append_dropWhile
    have hlive : s.live = s.queue.timers := by
      unfold Lifecycle.live
      rw [hi]
      exact List.append_nil _
    apply List.Perm.map
    rw [hlive, ← hsplit]
    exact List.perm_append_comm
  obtain ⟨calls, u, hnu, hru, hpu, hqu⟩ := callbacks_run clock (s := s.beginRead clock)
    rfl hlt ((haddrs.append_right _).nodup_iff.mpr hfresh)
  obtain ⟨resets, t, hnt, hrt, hpt, hqt⟩ := resets_run clock
    (s := u.endCalls (s.queue.expired (clock s.queue.ticks))) rfl
  refine ⟨calls ++ .endCalls :: resets, { t with phase := .idle }, by simp [hnu, hnt], ?_, rfl, ?_⟩
  · apply Run.cons ⟨hi, rfl⟩
    have hend : u.Step clock .endCalls (u.endCalls (s.queue.expired (clock s.queue.ticks))) :=
      ⟨_, hpu, rfl⟩
    exact (hru.append (.cons hend hrt)).snoc ⟨hpt, rfl⟩
  · show t.queue = _
    rw [hqt]
    unfold Lifecycle.endCalls
    dsimp only
    rw [hqu]
    rfl

end Refinement

end RyanNetwork.Timers

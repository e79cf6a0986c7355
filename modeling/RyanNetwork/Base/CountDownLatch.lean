import RyanNetwork.Lib.Condition
import RyanNetwork.Lib.Runs

/-!
# `CountDownLatch`

Any number of threads call `Wait` and `CountDown`. A section between two releases of the
mutex is one step: `Wait` up to its wait or to its return, the same from the return of
the wait on, and the whole of `CountDown`. A waiting thread may wake up spuriously.
-/
namespace RyanNetwork.Base

open Lib

set_option autoImplicit false

/-- The smallest value of `int`. -/
def intMin : Int := -2147483648

/-- The last two fields are ghost: how many calls of `CountDown` there were, and the threads
whose `Wait` returned, each with the number of those calls at that time. -/
structure CountDownLatch where
  count : Int
  cv : Condition Nat
  countDowns : Nat
  returned : List (Nat × Nat)
  deriving DecidableEq, Repr

namespace CountDownLatch

/-- `CountDownLatch(count)`. -/
def new (count : Int) : CountDownLatch := ⟨count, .empty, 0, []⟩

/-- `Wait` from the test of its loop on. -/
def waitSection (l : CountDownLatch) (t : Nat) : CountDownLatch :=
  if 0 < l.count then { l with cv := l.cv.wait t }
  else { l with returned := (t, l.countDowns) :: l.returned }

def countDown (l : CountDownLatch) : CountDownLatch :=
  let count := l.count - 1
  { l with
    count := count
    cv := if count = 0 then l.cv.notifyAll else l.cv
    countDowns := l.countDowns + 1 }

end CountDownLatch

inductive LatchAction where
  | wait (t : Nat)
  | wake (t : Nat)
  | resume (t : Nat)
  | countDown
  deriving DecidableEq, Repr

open CountDownLatch

/-- One section of one thread. `CountDown` is not called on the smallest `int`, where
`--count_` would overflow. -/
inductive LatchStep : CountDownLatch → LatchAction → CountDownLatch → Prop where
  | wait {l : CountDownLatch} {t : Nat} (ht : t ∉ l.cv.waiters) :
      LatchStep l (.wait t) (l.waitSection t)
  | wake {l : CountDownLatch} {t : Nat} (ht : t ∈ l.cv.unmarked) :
      LatchStep l (.wake t) { l with cv := l.cv.wake t }
  | resume {l : CountDownLatch} {t : Nat} (ht : l.cv.Ready t) :
      LatchStep l (.resume t) ({ l with cv := l.cv.resume t }.waitSection t)
  | countDown {l : CountDownLatch} (hmin : intMin < l.count) :
      LatchStep l .countDown l.countDown

/-- An open latch has nobody left to notify, and opened only when it was counted down. -/
structure Counted (n : Int) (l : CountDownLatch) : Prop where
  count : l.count = n - l.countDowns
  notified : l.count ≤ 0 → l.cv.unmarked = []
  after : ∀ r ∈ l.returned, n ≤ r.2

theorem counted_new (n : Int) : Counted n (CountDownLatch.new n) :=
  ⟨by simp [CountDownLatch.new], fun _ => rfl, by simp [CountDownLatch.new]⟩

theorem Counted.waitSection {n : Int} {l : CountDownLatch} (h : Counted n l) (t : Nat) :
    Counted n (l.waitSection t) := by
  unfold CountDownLatch.waitSection
  split
  · rename_i hpos
    refine ⟨h.count, ?_, h.after⟩
    intro hle
    dsimp only at hle
    omega
  · rename_i hopen
    refine ⟨h.count, h.notified, ?_⟩
    intro r hr
    rcases List.mem_cons.mp hr with rfl | hr
    · have hcount := h.count
      dsimp only
      omega
    · exact h.after r hr

theorem Counted.countDown {n : Int} {l : CountDownLatch} (h : Counted n l) :
    Counted n l.countDown := by
  have hcount := h.count
  refine ⟨?_, ?_, h.after⟩
  · simp only [CountDownLatch.countDown]
    omega
  · simp only [CountDownLatch.countDown]
    intro hle
    split
    · rfl
    · rename_i hne
      exact h.notified (by omega)

theorem latch_step_counted {n : Int} {l l' : CountDownLatch} {a : LatchAction} (h : Counted n l)
    (hs : LatchStep l a l') : Counted n l' := by
  cases hs with
  | wait _ => exact h.waitSection _
  | @wake t _ =>
    exact ⟨h.count, fun hle => Condition.wake_unmarked (h.notified hle) t, h.after⟩
  | @resume t _ =>
    have hresumed : Counted n { l with cv := l.cv.resume t } :=
      ⟨h.count, fun hle => (Condition.resume_unmarked l.cv t).trans (h.notified hle), h.after⟩
    exact hresumed.waitSection t
  | countDown _ => exact h.countDown

theorem latch_run_counted {n : Int} {l : CountDownLatch} {steps : List LatchAction}
    (hr : Run LatchStep (CountDownLatch.new n) steps l) : Counted n l :=
  hr.invariant (P := Counted n) (fun _ _ _ h hs => latch_step_counted h hs) (counted_new n)

/-- A waiter of an open latch returns in its next section. -/
theorem Counted.opens {n : Int} {l : CountDownLatch} (h : Counted n l) (hopen : n ≤ l.countDowns)
    {t : Nat} (ht : t ∈ l.cv.waiters) :
    ∃ l', LatchStep l (.resume t) l' ∧ (t, l.countDowns) ∈ l'.returned := by
  have hle : l.count ≤ 0 := by
    rw [h.count]
    omega
  have hready : l.cv.Ready t := by
    rw [Condition.waiters, h.notified hle, List.nil_append, List.mem_append] at ht
    exact ht
  refine ⟨_, .resume hready, ?_⟩
  unfold CountDownLatch.waitSection
  rw [if_neg (by dsimp only; omega)]
  exact List.mem_cons_self

/-- For every interleaving: no `Wait` returns before `CountDown` has been called as often as
the constructor was told, and from that call on every thread that still waits returns in its
next section, however often it was woken for nothing. -/
theorem latch_opens_exactly {n : Int} {l : CountDownLatch} {steps : List LatchAction}
    (hr : Run LatchStep (CountDownLatch.new n) steps l) :
    (∀ r ∈ l.returned, n ≤ r.2) ∧
      (n ≤ l.countDowns → ∀ t ∈ l.cv.waiters,
        ∃ l', LatchStep l (.resume t) l' ∧ (t, l.countDowns) ∈ l'.returned) := by
  have h := latch_run_counted hr
  exact ⟨h.after, fun hopen t ht => h.opens hopen ht⟩

/-- Two threads wait for two calls; one of them is woken in between for nothing. -/
theorem latch_of_two : ∃ l, Run LatchStep (CountDownLatch.new 2)
    [.wait 0, .wait 1, .countDown, .wake 1, .resume 1, .countDown, .resume 0] l ∧
    l.returned = [(0, 2)] ∧ ∃ l', LatchStep l (.resume 1) l' ∧ (1, 2) ∈ l'.returned := by
  have hr : ∃ l, Run LatchStep (CountDownLatch.new 2)
      [.wait 0, .wait 1, .countDown, .wake 1, .resume 1, .countDown, .resume 0] l ∧
      l.returned = [(0, 2)] ∧ l.countDowns = 2 ∧ 1 ∈ l.cv.waiters :=
    ⟨_, .cons (.wait (by decide)) (.cons (.wait (by decide)) (.cons (.countDown (by decide))
      (.cons (.wake (by decide)) (.cons (.resume (by decide)) (.cons (.countDown (by decide))
      (.single (.resume (by decide)))))))), by decide, by decide, by decide⟩
  obtain ⟨l, hr, hreturned, hcount, hwaits⟩ := hr
  have hopens := (latch_opens_exactly hr).2 (by rw [hcount]; decide) 1 hwaits
  rw [hcount] at hopens
  exact ⟨l, hr, hreturned, hopens⟩

end RyanNetwork.Base

import Mathlib.Data.List.Basic
import Mathlib.Data.List.Perm.Basic

/-!
# Condition variables

A condition variable is its set of waiters. A notification marks waiters; a marked waiter,
or one that woke spuriously, only has to get the mutex again before it resumes. `Covers`
is the counting invariant against lost wakeups: while some waiter is not marked, there are
at least as many marks as reasons to wake up.
-/
namespace RyanNetwork.Lib

set_option autoImplicit false

variable {ω : Type}

structure Condition (ω : Type) where
  unmarked : List ω
  marked : List ω
  woken : List ω
  deriving DecidableEq, Repr

namespace Condition

def empty : Condition ω := ⟨[], [], []⟩

def waiters (c : Condition ω) : List ω := c.unmarked ++ (c.marked ++ c.woken)

/-- A thread starts to wait. -/
def wait (c : Condition ω) (t : ω) : Condition ω := { c with unmarked := t :: c.unmarked }

def notifyAll (c : Condition ω) : Condition ω :=
  { c with unmarked := [], marked := c.unmarked ++ c.marked }

/-- While a waiter is not marked, at least `n` waiters are marked and not yet resumed. -/
def Covers (c : Condition ω) (n : Nat) : Prop := c.unmarked ≠ [] → n ≤ c.marked.length

theorem Covers.mono {c : Condition ω} {m n : Nat} (h : c.Covers n) (hle : m ≤ n) : c.Covers m :=
  fun hne => Nat.le_trans hle (h hne)

theorem covers_zero (c : Condition ω) : c.Covers 0 := fun _ => Nat.zero_le _

theorem covers_of_unmarked {c : Condition ω} (h : c.unmarked = []) (n : Nat) : c.Covers n :=
  fun hne => absurd h hne

theorem waiters_notifyAll (c : Condition ω) : c.notifyAll.waiters.Perm c.waiters := by
  simp only [waiters, notifyAll, List.nil_append, List.append_assoc]
  exact List.Perm.refl _

variable [DecidableEq ω]

/-- The waiter that `notify_one` marks: one that is not marked yet, if there is one. -/
def Chooses (c : Condition ω) : Option ω → Prop
  | some t => t ∈ c.unmarked
  | none => c.unmarked = []

instance (c : Condition ω) : DecidablePred c.Chooses
  | some t => inferInstanceAs (Decidable (t ∈ c.unmarked))
  | none => inferInstanceAs (Decidable (c.unmarked = []))

def notifyOne (c : Condition ω) : Option ω → Condition ω
  | some t => { c with unmarked := c.unmarked.erase t, marked := t :: c.marked }
  | none => c

/-- A spurious wakeup. -/
def wake (c : Condition ω) (t : ω) : Condition ω :=
  { c with unmarked := c.unmarked.erase t, woken := t :: c.woken }

/-- The thread is out of the wait up to getting the mutex. -/
def Ready (c : Condition ω) (t : ω) : Prop := t ∈ c.marked ∨ t ∈ c.woken

instance (c : Condition ω) : DecidablePred c.Ready :=
  fun _ => inferInstanceAs (Decidable (_ ∨ _))

/-- The thread has got the mutex again. -/
def resume (c : Condition ω) (t : ω) : Condition ω :=
  if t ∈ c.marked then { c with marked := c.marked.erase t }
  else { c with woken := c.woken.erase t }

/-! ## Who waits -/

theorem waiters_notifyOne {c : Condition ω} {choice : Option ω} (h : c.Chooses choice) :
    (c.notifyOne choice).waiters.Perm c.waiters := by
  cases choice with
  | none => exact List.Perm.refl _
  | some t =>
    have hmove : (c.unmarked.erase t ++ t :: (c.marked ++ c.woken)).Perm
        (t :: (c.unmarked.erase t ++ (c.marked ++ c.woken))) := List.perm_middle
    exact hmove.trans ((List.perm_cons_erase h).symm.append_right _)

theorem waiters_wake {c : Condition ω} {t : ω} (h : t ∈ c.unmarked) :
    (c.wake t).waiters.Perm c.waiters := by
  have hmove : (c.unmarked.erase t ++ (c.marked ++ t :: c.woken)).Perm
      (t :: (c.unmarked.erase t ++ (c.marked ++ c.woken))) := by
    rw [← List.append_assoc, ← List.append_assoc]
    exact List.perm_middle
  exact hmove.trans ((List.perm_cons_erase h).symm.append_right _)

theorem waiters_resume {c : Condition ω} {t : ω} (h : c.Ready t) :
    c.waiters.Perm (t :: (c.resume t).waiters) := by
  unfold resume
  split
  · rename_i hm
    have hmarked := ((List.perm_cons_erase hm).append_right c.woken).append_left c.unmarked
    exact hmarked.trans List.perm_middle
  · rename_i hm
    have hw : t ∈ c.woken := h.resolve_left hm
    have hwoken := ((List.perm_cons_erase hw).append_left c.marked).append_left c.unmarked
    refine hwoken.trans ?_
    simp only [waiters]
    rw [← List.append_assoc, ← List.append_assoc]
    exact List.perm_middle

/-! ## Lost wakeups -/

/-- One more reason to wake up, with its notification. -/
theorem Covers.notifyOne {c : Condition ω} {n : Nat} {choice : Option ω} (h : c.Covers n)
    (hc : c.Chooses choice) : (c.notifyOne choice).Covers (n + 1) := by
  cases choice with
  | none => exact covers_of_unmarked hc _
  | some t =>
    intro _
    have hne : c.unmarked ≠ [] := List.ne_nil_of_mem hc
    exact Nat.succ_le_succ (h hne)

theorem wake_unmarked {c : Condition ω} (h : c.unmarked = []) (t : ω) :
    (c.wake t).unmarked = [] := by
  simp [Condition.wake, h]

theorem Covers.wake {c : Condition ω} {n : Nat} (h : c.Covers n) (t : ω) : (c.wake t).Covers n := by
  intro hne
  apply h
  intro hnil
  exact hne (wake_unmarked hnil t)

theorem notifyOne_unmarked {c : Condition ω} (h : c.unmarked = []) (choice : Option ω) :
    (c.notifyOne choice).unmarked = [] := by
  cases choice with
  | none => exact h
  | some t => simp [Condition.notifyOne, h]

theorem resume_unmarked (c : Condition ω) (t : ω) : (c.resume t).unmarked = c.unmarked := by
  unfold resume
  split <;> rfl

/-- A resumed thread takes at most its own mark along. -/
theorem Covers.resume {c : Condition ω} {n : Nat} (h : c.Covers n) (t : ω) :
    (c.resume t).Covers (n - 1) := by
  intro hne
  rw [resume_unmarked] at hne
  have hle := h hne
  unfold Condition.resume
  split
  · rename_i hm
    have hlen := List.length_erase_of_mem hm
    dsimp only
    omega
  · dsimp only
    omega

end Condition

end RyanNetwork.Lib

import RyanNetwork.Lib.Condition
import RyanNetwork.Net.EventLoop

/-!
# `EventLoopThread` from its start to its destruction

The owner calls `StartLoop` and later the destructor; the new thread runs `ThreadFunc`,
whose loop lives on its stack; other threads use the loop, which `StartLoop` returned or
`callback_` passed on to them. One step is one access to what they share: the semaphore of
`Thread::Start`, `loop_` under its mutex or, in the destructor, without it, and the loop
itself. `fault` is ghost: somebody used a null pointer, a loop that is gone, or the mutex of
an object that is gone.
-/
namespace RyanNetwork.Net

open Lib EventLoop

set_option autoImplicit false

variable {F : Type}

/-- Where the new thread is: `posted` after `sem_post`, `inLoop` from the construction of
its loop to the return of `Loop`, `cleared` once `loop_` is null again. -/
inductive ThreadStage where
  | notStarted
  | starting
  | posted
  | inLoop
  | cleared
  | finished
  deriving DecidableEq, Repr

/-- Where the owner is: in `sem_wait`, at the test of `StartLoop`'s loop, waiting there, done
with `StartLoop`, in the destructor before `Quit`, in `Join`, or done with the destructor. -/
inductive OwnerStage where
  | constructed
  | semWait
  | testing
  | waiting
  | running
  | quitting
  | joining
  | destroyed
  deriving DecidableEq, Repr

/-- `published` stands for `loop_ != nullptr`. -/
structure EventLoopThread (F : Type) where
  thread : ThreadStage
  owner : OwnerStage
  sem : Bool
  tid : Bool
  published : Bool
  exiting : Bool
  cond : Condition Unit
  loop : EventLoop F
  fault : Bool

namespace EventLoopThread

/-- `EventLoopThread(cb, name)`. -/
def new (F : Type) : EventLoopThread F :=
  ⟨.notStarted, .constructed, false, false, false, false, .empty, EventLoop.new F, false⟩

/-- The loop exists: it is constructed and its scope not left. -/
def Alive (e : EventLoopThread F) : Prop := e.thread = .inLoop ∨ e.thread = .cleared

instance (e : EventLoopThread F) : Decidable e.Alive := inferInstanceAs (Decidable (_ ∨ _))

/-- The loop of `StartLoop` from its test on. -/
def startSection (e : EventLoopThread F) : EventLoopThread F :=
  if e.published then { e with owner := .running }
  else { e with owner := .waiting, cond := e.cond.wait () }

/-- The destructor up to its test of `loop_`. -/
def destroyTest (e : EventLoopThread F) : EventLoopThread F :=
  if e.published then { e with exiting := true, owner := .quitting }
  else { e with exiting := true, owner := .destroyed }

/-- `loop_->Quit()` of the destructor. -/
def destroyQuit (e : EventLoopThread F) : EventLoopThread F :=
  if e.published ∧ e.Alive then { e with loop := e.loop.setQuit, owner := .joining }
  else { e with fault := true, owner := .joining }

/-- The lock of `mutex_` is a fault once the object is gone. -/
def touch (e : EventLoopThread F) : EventLoopThread F :=
  if e.owner = .destroyed then { e with fault := true } else e

end EventLoopThread

inductive LifeAction (F : Type) where
  | start
  | post
  | semReturns
  | construct
  | publish (choice : Option Unit)
  | loop (a : Action F)
  | clear
  | finish
  | test
  | wake
  | resume
  | other (a : Action F)
  | destroyTest
  | destroyQuit
  | join

open EventLoopThread

/-- A step of a thread other than the loop's. -/
def Action.OfOther : Action F → Prop
  | .otherPush _ _ | .otherWake _ | .otherQuit _ | .otherQuitReturns _ => True
  | _ => False

/-- One step of one thread. Nothing in the source keeps another thread off the loop: with its
pointer it goes on as long as the loop exists, and is a fault afterwards. -/
inductive LifeStep : EventLoopThread F → LifeAction F → EventLoopThread F → Prop where
  | start {e : EventLoopThread F} (ho : e.owner = .constructed) :
      LifeStep e .start { e with owner := .semWait, thread := .starting }
  | post {e : EventLoopThread F} (ht : e.thread = .starting) :
      LifeStep e .post { e with thread := .posted, tid := true, sem := true }
  | semReturns {e : EventLoopThread F} (ho : e.owner = .semWait) (hs : e.sem = true) :
      LifeStep e .semReturns { e with owner := .testing, sem := false }
  | construct {e : EventLoopThread F} (ht : e.thread = .posted) :
      LifeStep e .construct { e with thread := .inLoop, loop := EventLoop.new F }
  | publish {e : EventLoopThread F} {l : EventLoop F} {choice : Option Unit}
      (ht : e.thread = .inLoop) (hl : LoopStep e.loop .publish l) (hc : e.cond.Chooses choice) :
      LifeStep e (.publish choice)
        { e.touch with loop := l, published := true, cond := e.cond.notifyOne choice }
  | loop {e : EventLoopThread F} {l : EventLoop F} {a : Action F} (ht : e.thread = .inLoop)
      (ha : a ≠ .publish) (ho : ¬a.OfOther) (hl : LoopStep e.loop a l) :
      LifeStep e (.loop a) { e with loop := l }
  | clear {e : EventLoopThread F} (ht : e.thread = .inLoop) (hp : e.loop.phase = .exited) :
      LifeStep e .clear { e.touch with thread := .cleared, published := false }
  | finish {e : EventLoopThread F} (ht : e.thread = .cleared) :
      LifeStep e .finish { e.touch with thread := .finished }
  | test {e : EventLoopThread F} (ho : e.owner = .testing) : LifeStep e .test e.startSection
  | wake {e : EventLoopThread F} (ho : e.owner = .waiting) (hu : () ∈ e.cond.unmarked) :
      LifeStep e .wake { e with cond := e.cond.wake () }
  | resume {e : EventLoopThread F} (ho : e.owner = .waiting) (hr : e.cond.Ready ()) :
      LifeStep e .resume ({ e with cond := e.cond.resume () }.startSection)
  | other {e : EventLoopThread F} {l : EventLoop F} {a : Action F} (he : e.Alive)
      (ho : a.OfOther) (hl : LoopStep e.loop a l) : LifeStep e (.other a) { e with loop := l }
  | otherDangling {e : EventLoopThread F} {a : Action F} (ht : e.thread = .finished)
      (ho : a.OfOther) : LifeStep e (.other a) { e with fault := true }
  | destroyTest {e : EventLoopThread F} (ho : e.owner = .constructed ∨ e.owner = .running) :
      LifeStep e .destroyTest e.destroyTest
  | destroyQuit {e : EventLoopThread F} (ho : e.owner = .quitting) :
      LifeStep e .destroyQuit e.destroyQuit
  | join {e : EventLoopThread F} (ho : e.owner = .joining) (ht : e.thread = .finished) :
      LifeStep e .join { e with owner := .destroyed }

/-- The destructor has begun. -/
def OwnerStage.Ending : OwnerStage → Prop
  | .quitting | .joining | .destroyed => True
  | _ => False

/-- The destructor is the only one that calls `Quit`, and the calls of other threads are over
when it starts. -/
def Proper (e : EventLoopThread F) : LifeAction F → Prop
  | .loop .ownQuit => False
  | .other (.otherQuit _) => False
  | .other _ => ¬e.owner.Ending
  | .destroyTest => ∀ t, e.loop.others t = .none
  | _ => True

def Action.Quiet : Action F → Prop
  | .ownQuit | .otherQuit _ => False
  | _ => True

/-- What a step of a loop on which nobody calls `Quit` can do to its end. -/
theorem loop_step_quiet {l l' : EventLoop F} {a : Action F} (hs : LoopStep l a l')
    (ha : a ≠ .publish) (hq : a.Quiet) :
    (l'.quit = true → l.quit = true) ∧
      (l'.phase = .exited → l.phase = .exited ∨ l.quit = true) ∧
      (l'.Unpublished ↔ l.Unpublished) := by
  cases hs with
  | publish _ => exact absurd rfl ha
  | callThreadInit hp | threadInitReturns hp _ | startLoop hp _ => simp [Unpublished, hp]
  | testQuit hp =>
    split
    · rename_i hquit
      simp [Unpublished, hp, hquit]
    · simp [Unpublished, hp]
  | enterPoll hp | pollReturns hp _ | handleWakeup hp | callUser hp | userReturns hp _
  | handled hp | swap hp | callFunctor hp | functorReturns hp _ | batchDone hp =>
    simp [Unpublished, hp, handleRead]
  | ownPush _ => exact ⟨id, .inl, Iff.rfl⟩
  | ownWake _ =>
    split
    · exact ⟨id, .inl, Iff.rfl⟩
    · exact ⟨id, .inl, Iff.rfl⟩
  | ownQuit _ => exact hq.elim
  | ownQuitWake _ => exact ⟨id, .inl, Iff.rfl⟩
  | otherPush _ _ => exact ⟨id, .inl, Iff.rfl⟩
  | otherWake _ => exact ⟨id, .inl, Iff.rfl⟩
  | otherQuit _ _ => exact hq.elim
  | otherQuitReturns _ => exact ⟨id, .inl, Iff.rfl⟩

/-- The destructor has called `Quit`. -/
def OwnerStage.Quit : OwnerStage → Prop
  | .joining | .destroyed => True
  | _ => False

/-- The new thread has published its loop. -/
def EventLoopThread.Launched (e : EventLoopThread F) : Prop :=
  match e.thread with
  | .notStarted | .starting | .posted => False
  | .inLoop => ¬e.loop.Unpublished
  | .cleared | .finished => True

/-- Nobody leaves the loop before the destructor asks for it. -/
structure Lifetime (e : EventLoopThread F) : Prop where
  faultless : e.fault = false
  quit : e.loop.quit = true → e.thread = .inLoop → e.owner.Quit
  ended : e.thread = .inLoop → e.loop.phase = .exited → e.owner.Quit
  left : e.thread = .cleared ∨ e.thread = .finished → e.owner.Quit
  published : e.published = true ↔ e.thread = .inLoop ∧ ¬e.loop.Unpublished
  owned : e.owner = .running ∨ e.owner = .quitting ∨ e.owner = .joining → e.Launched
  gone : e.owner = .destroyed → e.thread = .finished ∨ e.thread = .notStarted
  fresh : e.owner = .constructed → e.thread = .notStarted
  waits : e.owner = .waiting → e.cond.waiters.length = 1
  idle : e.owner ≠ .waiting → e.cond.waiters = []
  notified : e.cond.unmarked ≠ [] → e.published = false

theorem lifetime_new : Lifetime (EventLoopThread.new F) := by
  constructor <;> simp [EventLoopThread.new, EventLoop.new, Condition.empty, Condition.waiters]

namespace Lifetime

variable {e : EventLoopThread F}

theorem touch_eq (h : Lifetime e) (ht : e.thread = .inLoop ∨ e.thread = .cleared) :
    e.touch = e := by
  unfold EventLoopThread.touch
  rw [if_neg]
  intro ho
  rcases h.gone ho with hg | hg <;> rcases ht with ht | ht <;> rw [hg] at ht <;> cases ht

/-- The owner goes on without having waited. -/
theorem setOwner (h : Lifetime e) (o : OwnerStage) (hfrom : e.owner ≠ .waiting)
    (hto : o ≠ .waiting) (hfresh : o ≠ .constructed) (hquit : e.owner.Quit → o.Quit)
    (howned : o = .running ∨ o = .quitting ∨ o = .joining → e.Launched)
    (hgone : o = .destroyed → e.thread = .finished ∨ e.thread = .notStarted) :
    Lifetime { e with owner := o } where
  faultless := h.faultless
  quit := fun hq ht => hquit (h.quit hq ht)
  ended := fun ht hp => hquit (h.ended ht hp)
  left := fun ht => hquit (h.left ht)
  published := h.published
  owned := howned
  gone := hgone
  fresh := fun ho => absurd ho hfresh
  waits := fun ho => absurd ho hto
  idle := fun _ => h.idle hfrom
  notified := h.notified

/-- The flags that no invariant is about. -/
theorem setFlags (h : Lifetime e) (sem tid exiting : Bool) :
    Lifetime { e with sem := sem, tid := tid, exiting := exiting } :=
  ⟨h.faultless, h.quit, h.ended, h.left, h.published, h.owned, h.gone, h.fresh, h.waits, h.idle,
    h.notified⟩

/-- `StartLoop` from the test of its loop on. -/
theorem startSection (h : Lifetime e) (ho : e.owner = .testing) : Lifetime e.startSection := by
  have hne : e.owner ≠ .waiting := by rw [ho]; decide
  unfold EventLoopThread.startSection
  split
  · rename_i hp
    obtain ⟨ht, hphase⟩ := h.published.mp hp
    have hlaunched : e.Launched := by
      unfold EventLoopThread.Launched
      rw [ht]
      exact hphase
    exact h.setOwner .running hne (by decide) (by decide) (by rw [ho]; exact False.elim)
      (fun _ => hlaunched) (by simp)
  · rename_i hp
    have hquit : ¬e.owner.Quit := by
      rw [ho]
      exact id
    refine ⟨h.faultless, fun hq ht => absurd (h.quit hq ht) hquit,
      fun ht hphase => absurd (h.ended ht hphase) hquit, fun ht => absurd (h.left ht) hquit,
      h.published, by simp, by simp, by simp, fun _ => ?_, fun hw => absurd rfl hw,
      fun _ => by simpa using hp⟩
    have hidle := h.idle hne
    simp only [Condition.waiters, Condition.wait, List.cons_append, List.length_cons] at hidle ⊢
    rw [hidle]
    rfl

/-- The owner that was woken tests again. -/
theorem resumed (h : Lifetime e) (ho : e.owner = .waiting) (hr : e.cond.Ready ()) :
    Lifetime { e with owner := .testing, cond := e.cond.resume () } := by
  have hquit : ¬e.owner.Quit := by
    rw [ho]
    exact id
  have hlen := (Condition.waiters_resume hr).length_eq
  rw [h.waits ho, List.length_cons] at hlen
  have hnone : (e.cond.resume ()).waiters = [] := List.eq_nil_of_length_eq_zero (by omega)
  refine ⟨h.faultless, fun hq ht => absurd (h.quit hq ht) hquit,
    fun ht hphase => absurd (h.ended ht hphase) hquit, fun ht => absurd (h.left ht) hquit,
    h.published, by simp, by simp, by simp, by simp, fun _ => hnone, fun hu => ?_⟩
  rw [Condition.resume_unmarked] at hu
  exact h.notified hu

/-- The loop takes a step of its own. -/
theorem setLoop (h : Lifetime e) {l : EventLoop F} (hquit : l.quit = true → e.loop.quit = true)
    (hended : l.phase = .exited → e.loop.phase = .exited ∨ e.loop.quit = true)
    (hphase : l.Unpublished ↔ e.loop.Unpublished) :
    Lifetime { e with loop := l } where
  faultless := h.faultless
  quit := fun hq ht => h.quit (hquit hq) ht
  ended := by
    intro ht hp
    rcases hended hp with hp | hq
    · exact h.ended ht hp
    · exact h.quit hq ht
  left := h.left
  published := by
    rw [h.published]
    exact and_congr_right fun _ => not_congr hphase.symm
  owned := by
    intro ho
    have hl := h.owned ho
    unfold EventLoopThread.Launched at hl ⊢
    dsimp only
    cases ht : e.thread <;> rw [ht] at hl
    case inLoop => exact fun hc => hl (hphase.mp hc)
    all_goals exact hl
  gone := h.gone
  fresh := h.fresh
  waits := h.waits
  idle := h.idle
  notified := h.notified

theorem publish (h : Lifetime e) {l : EventLoop F} {choice : Option Unit} (ht : e.thread = .inLoop)
    (hl : LoopStep e.loop .publish l) (hc : e.cond.Chooses choice) :
    Lifetime { e.touch with loop := l, published := true, cond := e.cond.notifyOne choice } := by
  rw [h.touch_eq (.inl ht)]
  cases hl with
  | publish hp =>
    have hlen : e.cond.waiters.length ≤ 1 := by
      by_cases ho : e.owner = .waiting
      · exact Nat.le_of_eq (h.waits ho)
      · rw [h.idle ho]
        exact Nat.zero_le 1
    have hnone : (e.cond.notifyOne choice).unmarked = [] := by
      cases choice with
      | none => exact hc
      | some u =>
        have hone : e.cond.unmarked.length ≤ 1 := by
          simp only [Condition.waiters, List.length_append] at hlen
          omega
        have hcut := List.length_erase_of_mem (show u ∈ e.cond.unmarked from hc)
        exact List.eq_nil_of_length_eq_zero (by simp only [Condition.notifyOne]; omega)
    refine ⟨h.faultless, h.quit, by simp, h.left, by simp [ht, Unpublished], ?_, h.gone, h.fresh,
      ?_, ?_, ?_⟩
    · intro _
      unfold EventLoopThread.Launched
      dsimp only
      rw [ht]
      simp [Unpublished]
    · intro ho
      rw [(Condition.waiters_notifyOne hc).length_eq]
      exact h.waits ho
    · intro ho
      have hperm := Condition.waiters_notifyOne hc
      rw [h.idle ho] at hperm
      exact hperm.eq_nil
    · exact fun hu => absurd hnone hu

theorem clear (h : Lifetime e) (ht : e.thread = .inLoop) (hp : e.loop.phase = .exited) :
    Lifetime { e.touch with thread := .cleared, published := false } := by
  rw [h.touch_eq (.inl ht)]
  have hquit := h.ended ht hp
  refine ⟨h.faultless, by simp, by simp, fun _ => hquit, by simp, fun _ => trivial, ?_, ?_, h.waits,
    h.idle, fun _ => rfl⟩
  · intro ho
    rcases h.gone ho with hg | hg <;> rw [hg] at ht <;> cases ht
  · intro ho
    rw [h.fresh ho] at ht
    cases ht

theorem finish (h : Lifetime e) (ht : e.thread = .cleared) :
    Lifetime { e.touch with thread := .finished } := by
  rw [h.touch_eq (.inr ht)]
  have hquit := h.left (.inl ht)
  refine ⟨h.faultless, by simp, by simp, fun _ => hquit, ?_, fun _ => trivial, fun _ => .inl rfl,
    ?_, h.waits, h.idle, h.notified⟩
  · simp [h.published, ht]
  · intro ho
    rw [h.fresh ho] at ht
    cases ht

/-- The destructor finds the loop that `StartLoop` returned where it was. -/
theorem loop_kept (h : Lifetime e) (ho : e.owner = .running ∨ e.owner = .quitting) :
    e.thread = .inLoop ∧ e.published = true ∧ e.loop.phase ≠ .exited := by
  have hquit : ¬e.owner.Quit := by
    rcases ho with ho | ho <;> rw [ho] <;> exact id
  have hl := h.owned (ho.imp_right .inl)
  unfold EventLoopThread.Launched at hl
  cases ht : e.thread <;> rw [ht] at hl
  case inLoop =>
    exact ⟨rfl, h.published.mpr ⟨ht, hl⟩, fun hp => hquit (h.ended ht hp)⟩
  case cleared => exact absurd (h.left (.inl ht)) hquit
  case finished => exact absurd (h.left (.inr ht)) hquit
  all_goals exact hl.elim

theorem destroyTest (h : Lifetime e) (ho : e.owner = .constructed ∨ e.owner = .running) :
    Lifetime e.destroyTest := by
  have hne : e.owner ≠ .waiting := by rcases ho with ho | ho <;> rw [ho] <;> decide
  have hquit : ¬e.owner.Quit := by rcases ho with ho | ho <;> rw [ho] <;> exact id
  unfold EventLoopThread.destroyTest
  split
  · rename_i hp
    have hkept : e.owner = .running := by
      refine ho.resolve_left fun hc => ?_
      have hin := (h.published.mp hp).1
      rw [h.fresh hc] at hin
      cases hin
    exact (h.setOwner .quitting hne (by decide) (by decide) (fun hq => absurd hq hquit)
      (fun _ => h.owned (.inl hkept)) (by simp)).setFlags e.sem e.tid true
  · rename_i hp
    have hfresh : e.owner = .constructed :=
      ho.resolve_right fun hr => hp (h.loop_kept (.inl hr)).2.1
    exact (h.setOwner .destroyed hne (by decide) (by decide) (fun _ => trivial) (by simp)
      (fun _ => .inr (h.fresh hfresh))).setFlags e.sem e.tid true

theorem destroyQuit (h : Lifetime e) (ho : e.owner = .quitting) : Lifetime e.destroyQuit := by
  obtain ⟨ht, hp, _⟩ := h.loop_kept (.inr ho)
  have hne : e.owner ≠ .waiting := by rw [ho]; decide
  unfold EventLoopThread.destroyQuit
  rw [if_pos ⟨hp, .inl ht⟩]
  exact ⟨h.faultless, fun _ _ => trivial, fun _ _ => trivial, fun _ => trivial, h.published,
    fun _ => h.owned (.inr (.inl ho)), by simp, by simp, by simp, fun _ => h.idle hne, h.notified⟩

/-- The loop is there for every other thread until the destructor begins. -/
theorem alive_for_others (h : Lifetime e) (ho : ¬e.owner.Ending) : e.thread ≠ .finished := by
  intro ht
  have hquit := h.left (.inr ht)
  cases hown : e.owner <;> rw [hown] at ho hquit
  case joining | destroyed => exact ho trivial
  all_goals exact hquit

end Lifetime

theorem life_step_lifetime {e e' : EventLoopThread F} {a : LifeAction F} (h : Lifetime e)
    (hs : LifeStep e a e') (hq : Proper e a) : Lifetime e' := by
  cases hs with
  | start ho =>
    have ht := h.fresh ho
    have hne : e.owner ≠ .waiting := by rw [ho]; decide
    exact ⟨h.faultless, by simp, by simp, by simp, by simp [h.published, ht], by simp, by simp,
      by simp, by simp, fun _ => h.idle hne, h.notified⟩
  | post ht =>
    have hstart : e.owner ≠ .constructed := fun ho => by rw [h.fresh ho] at ht; cases ht
    have hgone : e.owner ≠ .destroyed := fun ho => by
      rcases h.gone ho with hg | hg <;> rw [hg] at ht <;> cases ht
    have howned : ¬(e.owner = .running ∨ e.owner = .quitting ∨ e.owner = .joining) := fun ho => by
      have hl := h.owned ho
      unfold EventLoopThread.Launched at hl
      rwa [ht] at hl
    exact ⟨h.faultless, by simp, by simp, by simp, by simp [h.published, ht],
      fun ho => absurd ho howned, fun ho => absurd ho hgone, fun ho => absurd ho hstart, h.waits,
      h.idle, h.notified⟩
  | semReturns ho _ =>
    have hne : e.owner ≠ .waiting := by rw [ho]; decide
    have hquit : ¬e.owner.Quit := by rw [ho]; exact id
    exact (h.setOwner .testing hne (by decide) (by decide) (fun hq => absurd hq hquit) (by simp)
      (by simp)).setFlags false e.tid e.exiting
  | construct ht =>
    have hstart : e.owner ≠ .constructed := fun ho => by rw [h.fresh ho] at ht; cases ht
    have hgone : e.owner ≠ .destroyed := fun ho => by
      rcases h.gone ho with hg | hg <;> rw [hg] at ht <;> cases ht
    have howned : ¬(e.owner = .running ∨ e.owner = .quitting ∨ e.owner = .joining) := fun ho => by
      have hl := h.owned ho
      unfold EventLoopThread.Launched at hl
      rwa [ht] at hl
    exact ⟨h.faultless, by simp [EventLoop.new], by simp [EventLoop.new], by simp,
      by simp [h.published, ht, EventLoop.new, Unpublished], fun ho => absurd ho howned,
      fun ho => absurd ho hgone, fun ho => absurd ho hstart, h.waits, h.idle, h.notified⟩
  | publish ht hl hc => exact h.publish ht hl hc
  | @loop _ a ht ha ho hl =>
    have hquiet : a.Quiet := by
      cases a
      case ownQuit => exact hq.elim
      case otherQuit t => exact absurd trivial ho
      all_goals trivial
    obtain ⟨hquit, hended, hphase⟩ := loop_step_quiet hl ha hquiet
    exact h.setLoop hquit hended hphase
  | clear ht hp => exact h.clear ht hp
  | finish ht => exact h.finish ht
  | test ho => exact h.startSection ho
  | wake ho hu =>
    refine ⟨h.faultless, h.quit, h.ended, h.left, h.published, h.owned, h.gone, h.fresh, ?_, ?_, ?_⟩
    · intro ho
      rw [(Condition.waiters_wake hu).length_eq]
      exact h.waits ho
    · exact fun hne => absurd ho hne
    · intro hne
      exact h.notified fun hnil => hne (Condition.wake_unmarked hnil ())
  | resume ho hr => exact (h.resumed ho hr).startSection rfl
  | @other _ a he ho hl =>
    have hquiet : a.Quiet := by
      cases a
      case otherQuit t => exact hq.elim
      case ownQuit => exact ho.elim
      all_goals trivial
    have hne : a ≠ .publish := by
      rintro rfl
      exact ho
    obtain ⟨hquit, hended, hphase⟩ := loop_step_quiet hl hne hquiet
    exact h.setLoop hquit hended hphase
  | @otherDangling a ht ho =>
    have hopen : ¬e.owner.Ending := by
      cases a
      case otherQuit t => exact hq.elim
      case otherPush | otherWake | otherQuitReturns => exact hq
      all_goals exact ho.elim
    exact absurd ht (h.alive_for_others hopen)
  | destroyTest ho => exact h.destroyTest ho
  | destroyQuit ho => exact h.destroyQuit ho
  | join ho ht =>
    have hne : e.owner ≠ .waiting := by rw [ho]; decide
    exact h.setOwner .destroyed hne (by decide) (by decide) (fun _ => trivial) (by simp)
      (fun _ => .inl ht)

/-! ## What the owner may rely on -/

/-- `Thread::Start` has returned. -/
def OwnerStage.Started : OwnerStage → Prop
  | .constructed | .semWait | .destroyed => False
  | _ => True

/-- The semaphore carries `tid_` to the owner. -/
structure Named (e : EventLoopThread F) : Prop where
  posted : e.sem = true → e.tid = true
  started : e.owner.Started → e.tid = true

theorem Named.setOwner {e : EventLoopThread F} (h : Named e) {e' : EventLoopThread F}
    (hsem : e'.sem = e.sem) (htid : e'.tid = e.tid)
    (ho : e'.owner.Started → e.owner.Started) : Named e' := by
  refine ⟨?_, fun hs => ?_⟩
  · rw [hsem, htid]
    exact h.posted
  · rw [htid]
    exact h.started (ho hs)

theorem EventLoopThread.touch_owner (e : EventLoopThread F) :
    e.touch.sem = e.sem ∧ e.touch.tid = e.tid ∧ e.touch.owner = e.owner := by
  unfold EventLoopThread.touch
  split
  · exact ⟨rfl, rfl, rfl⟩
  · exact ⟨rfl, rfl, rfl⟩

theorem life_step_named {e e' : EventLoopThread F} {a : LifeAction F} (hl : Lifetime e)
    (h : Named e) (hs : LifeStep e a e') : Named e' := by
  obtain ⟨hsem, htid, howner⟩ := e.touch_owner
  cases hs with
  | start ho => exact h.setOwner rfl rfl False.elim
  | post ht => exact ⟨fun _ => rfl, fun _ => rfl⟩
  | semReturns ho hs => exact ⟨by simp, fun _ => h.posted hs⟩
  | construct ht => exact h.setOwner rfl rfl id
  | publish ht hl hc => exact h.setOwner hsem htid (by dsimp only; rw [howner]; exact id)
  | loop ht ha ho hl => exact h.setOwner rfl rfl id
  | clear ht hp => exact h.setOwner hsem htid (by dsimp only; rw [howner]; exact id)
  | finish ht => exact h.setOwner hsem htid (by dsimp only; rw [howner]; exact id)
  | test ho =>
    unfold EventLoopThread.startSection
    split
    · exact h.setOwner rfl rfl fun _ => by rw [ho]; trivial
    · exact h.setOwner rfl rfl fun _ => by rw [ho]; trivial
  | wake ho hu => exact h.setOwner rfl rfl id
  | resume ho hr =>
    unfold EventLoopThread.startSection
    split
    · exact h.setOwner rfl rfl fun _ => by rw [ho]; trivial
    · exact h.setOwner rfl rfl fun _ => by rw [ho]; trivial
  | other he ho hl => exact h.setOwner rfl rfl id
  | otherDangling ht ho => exact h.setOwner rfl rfl id
  | destroyTest ho =>
    unfold EventLoopThread.destroyTest
    split
    · rename_i hp
      have hrun : e.owner = .running := by
        refine ho.resolve_left fun hc => ?_
        have hin := (hl.published.mp hp).1
        rw [hl.fresh hc] at hin
        cases hin
      exact h.setOwner rfl rfl fun _ => by rw [hrun]; trivial
    · exact h.setOwner rfl rfl False.elim
  | destroyQuit ho =>
    unfold EventLoopThread.destroyQuit
    split
    · exact h.setOwner rfl rfl fun _ => by rw [ho]; trivial
    · exact h.setOwner rfl rfl fun _ => by rw [ho]; trivial
  | join ho ht => exact h.setOwner rfl rfl False.elim

theorem life_run_named {e : EventLoopThread F} {steps : List (LifeAction F)}
    (hr : Run (fun e a e' => LifeStep e a e' ∧ Proper e a) (EventLoopThread.new F) steps e) :
    Lifetime e ∧ Named e :=
  hr.invariant (P := fun e => Lifetime e ∧ Named e)
    (fun _ _ _ h hs => ⟨life_step_lifetime h.1 hs.1 hs.2, life_step_named h.1 h.2 hs.1⟩)
    ⟨lifetime_new, ⟨by simp [EventLoopThread.new], False.elim⟩⟩

/-- For every interleaving in which only the destructor calls `Quit`, and in which the calls of
other threads are over when it starts: nobody uses a null pointer or an object that is gone;
the loop that `StartLoop` returned is running until the destructor asks it to stop; an owner
that still waits for a published loop gets it in its next section; it never sees a thread
without `tid_`; and when the destructor is done, so is the thread. -/
theorem loop_outlives_its_users {e : EventLoopThread F} {steps : List (LifeAction F)}
    (hr : Run (fun e a e' => LifeStep e a e' ∧ Proper e a) (EventLoopThread.new F) steps e) :
    e.fault = false ∧
      (e.owner = .running → e.thread = .inLoop ∧ e.published = true ∧ e.loop.phase ≠ .exited) ∧
      (e.owner = .waiting → e.published = true →
        ∃ e', LifeStep e .resume e' ∧ e'.owner = .running) ∧
      (e.owner.Started → e.tid = true) ∧
      (e.owner = .destroyed → e.thread = .finished ∨ e.thread = .notStarted) := by
  obtain ⟨h, hn⟩ := life_run_named hr
  refine ⟨h.faultless, fun ho => h.loop_kept (.inl ho), ?_, hn.started, h.gone⟩
  intro ho hp
  have hnone : e.cond.unmarked = [] := by
    by_contra hne
    rw [h.notified hne] at hp
    cases hp
  have hwaits := h.waits ho
  have hready : e.cond.Ready () := by
    rw [Condition.waiters, hnone, List.nil_append] at hwaits
    obtain ⟨u, hu⟩ := List.length_eq_one_iff.mp hwaits
    have hmem : u ∈ e.cond.marked ++ e.cond.woken := by rw [hu]; exact List.mem_cons_self
    exact List.mem_append.mp hmem
  refine ⟨_, .resume ho hready, ?_⟩
  unfold EventLoopThread.startSection
  rw [if_pos hp]

/-- A start whose owner waits for the loop, and a destruction. -/
def wholeLife : List (LifeAction Nat) :=
  [.start, .post, .semReturns, .test, .construct, .loop .callThreadInit, .loop .threadInitReturns,
    .publish (some ()), .resume, .loop .startLoop, .other (.otherPush 3 5), .other (.otherWake 3),
    .loop .testQuit, .loop .enterPoll, .loop (.pollReturns [.wakeup]), .destroyTest, .destroyQuit,
    .loop .handleWakeup, .loop .handled, .loop .swap, .loop .callFunctor, .loop .functorReturns,
    .loop .batchDone, .loop .testQuit, .clear, .finish, .join]

theorem wholeLife_runs : ∃ e : EventLoopThread Nat,
    Run (fun e a e' => LifeStep e a e' ∧ Proper e a) (EventLoopThread.new Nat) wholeLife e ∧
      e.owner = .destroyed ∧ e.fault = false ∧ (e.thread = .finished ∨ e.thread = .notStarted) := by
  have hr : ∃ e : EventLoopThread Nat,
      Run (fun e a e' => LifeStep e a e' ∧ Proper e a) (EventLoopThread.new Nat) wholeLife e ∧
        e.owner = .destroyed := by
    have hidle (t : Nat) :
        Function.update (Function.update (fun _ => CallStage.none) 3 .pushed) 3 .none t =
          .none := by
      simp [Function.update_apply]
    exact ⟨_, .cons ⟨.start rfl, trivial⟩ (.cons ⟨.post rfl, trivial⟩
      (.cons ⟨.semReturns rfl rfl, trivial⟩ (.cons ⟨.test rfl, trivial⟩ (.cons ⟨.construct rfl, trivial⟩
      (.cons ⟨.loop rfl (by simp) id (.callThreadInit rfl), trivial⟩
      (.cons ⟨.loop rfl (by simp) id (.threadInitReturns rfl rfl), trivial⟩
      (.cons ⟨.publish rfl (.publish (.inr rfl)) (by decide), trivial⟩
      (.cons ⟨.resume rfl (by decide), trivial⟩
      (.cons ⟨.loop rfl (by simp) id (.startLoop rfl rfl), trivial⟩
      (.cons ⟨.other (.inl rfl) trivial (.otherPush (by simp) rfl), id⟩
      (.cons ⟨.other (.inl rfl) trivial (.otherWake rfl), id⟩
      (.cons ⟨.loop rfl (by simp) id (.testQuit rfl), trivial⟩
      (.cons ⟨.loop rfl (by simp) id (.enterPoll rfl), trivial⟩
      (.cons ⟨.loop rfl (by simp) id (.pollReturns rfl (fun _ => Nat.one_pos)), trivial⟩
      (.cons ⟨.destroyTest (.inr rfl), hidle⟩
      (.cons ⟨.destroyQuit rfl, trivial⟩
      (.cons ⟨.loop rfl (by simp) id (.handleWakeup rfl), trivial⟩
      (.cons ⟨.loop rfl (by simp) id (.handled rfl), trivial⟩
      (.cons ⟨.loop rfl (by simp) id (.swap rfl), trivial⟩
      (.cons ⟨.loop rfl (by simp) id (.callFunctor rfl), trivial⟩
      (.cons ⟨.loop rfl (by simp) id (.functorReturns rfl rfl), trivial⟩
      (.cons ⟨.loop rfl (by simp) id (.batchDone rfl), trivial⟩
      (.cons ⟨.loop rfl (by simp) id (.testQuit rfl), trivial⟩ (.cons ⟨.clear rfl rfl, trivial⟩
      (.cons ⟨.finish rfl, trivial⟩
      (.single ⟨.join rfl rfl, trivial⟩)))))))))))))))))))))))))), rfl⟩
  obtain ⟨e, hr, ho⟩ := hr
  have h := loop_outlives_its_users hr
  exact ⟨e, hr, ho, h.1, h.2.2.2.2 ho⟩

/-- With a `Quit` of another thread the pointer that `StartLoop` returned can dangle, and so it
can for a thread that is inside `QueueInLoop` when the destructor starts. -/
theorem late_users_dangle :
    (∃ e : EventLoopThread Nat, Run LifeStep (EventLoopThread.new Nat)
      [.start, .post, .semReturns, .construct, .publish none, .test, .loop .startLoop,
        .other (.otherQuit 3), .loop .testQuit, .clear, .finish, .other (.otherPush 4 5)] e ∧
      e.fault = true) ∧
    ∃ e : EventLoopThread Nat, Run LifeStep (EventLoopThread.new Nat)
      [.start, .post, .semReturns, .construct, .publish none, .test, .loop .startLoop,
        .other (.otherPush 3 5), .destroyTest, .destroyQuit, .loop .testQuit, .clear, .finish,
        .other (.otherWake 3)] e ∧ e.fault = true := by
  constructor
  · exact ⟨_, .cons (.start rfl) (.cons (.post rfl) (.cons (.semReturns rfl rfl)
      (.cons (.construct rfl) (.cons (.publish rfl (.publish (.inl rfl)) (by decide))
      (.cons (.test rfl) (.cons (.loop rfl (by simp) id (.startLoop rfl rfl))
      (.cons (.other (.inl rfl) trivial (.otherQuit (by simp) rfl))
      (.cons (.loop rfl (by simp) id (.testQuit rfl)) (.cons (.clear rfl rfl) (.cons (.finish rfl)
      (.single (.otherDangling rfl trivial)))))))))))), rfl⟩
  · exact ⟨_, .cons (.start rfl) (.cons (.post rfl) (.cons (.semReturns rfl rfl)
      (.cons (.construct rfl) (.cons (.publish rfl (.publish (.inl rfl)) (by decide))
      (.cons (.test rfl) (.cons (.loop rfl (by simp) id (.startLoop rfl rfl))
      (.cons (.other (.inl rfl) trivial (.otherPush (by simp) rfl))
      (.cons (.destroyTest (.inr rfl)) (.cons (.destroyQuit rfl)
      (.cons (.loop rfl (by simp) id (.testQuit rfl)) (.cons (.clear rfl rfl) (.cons (.finish rfl)
      (.single (.otherDangling rfl trivial)))))))))))))), rfl⟩

end RyanNetwork.Net

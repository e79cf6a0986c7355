import RyanNetwork.Net.EventLoop

/-!
# `Quit` against the loop thread

`Quit` sets `quit_` and then wakes the loop if its caller is the loop thread, the
one caller that needs no wakeup; and `Loop` starts by clearing `quit_`. A `Quit`
therefore takes effect only if it falls after that start, which rules out the
`callback_` of `ThreadFunc`, and if it comes from another thread, not between the loop's
test of `quit_` and its return from a `Poll` that nothing else is going to wake.
-/
namespace RyanNetwork.Net

open Lib EventLoop

set_option autoImplicit false

variable {F : Type}

/-- The loop thread has not started `Loop` yet. -/
def BeforeLoop (l : EventLoop F) : Prop := l.Unpublished ∨ l.phase = .published

/-- The loop thread is past its test of `quit_` and not yet back from `Poll`. -/
def Sleeping (l : EventLoop F) : Prop := l.phase = .entering ∨ l.phase = .polling

/-- A `Quit` comes after `Loop` has started, and that of another thread finds the loop
awake or about to be woken. -/
def Timely (l : EventLoop F) : Action F → Prop
  | .ownQuit => ¬BeforeLoop l
  | .otherQuit _ => ¬BeforeLoop l ∧ (Sleeping l → 0 < l.wakeup)
  | _ => True

/-- Once `quit_` is set it stays set, and the loop does not sleep on it. -/
structure Quitting (l : EventLoop F) : Prop where
  started : l.quit = true → ¬BeforeLoop l
  awake : l.quit = true → Sleeping l → 0 < l.wakeup
  returned : l.quitReturned = true → l.quit = true
  others : ∀ t, l.others t = .quitting → l.quit = true
  own : l.ownCall = .quitting → l.quit = true

theorem quitting_new : Quitting (EventLoop.new F) :=
  ⟨by simp [EventLoop.new], by simp [EventLoop.new], by simp [EventLoop.new],
    by simp [EventLoop.new], by simp [EventLoop.new]⟩

/-- A step of the loop thread that leaves the flag alone and goes, if the flag is
set, to a phase after the start in which it does not sleep. -/
theorem quitting_of_phase {l l' : EventLoop F} (hq : Quitting l) (hquit : l'.quit = l.quit)
    (hret : l'.quitReturned = l.quitReturned) (ho : l'.others = l.others)
    (hc : l'.ownCall = l.ownCall)
    (hp : l.quit = true → ¬BeforeLoop l' ∧ (Sleeping l' → 0 < l'.wakeup)) : Quitting l' := by
  refine ⟨?_, ?_, ?_, ?_, ?_⟩
  · rw [hquit]
    exact fun h => (hp h).1
  · rw [hquit]
    exact fun h => (hp h).2
  · rw [hquit, hret]
    exact hq.returned
  · rw [hquit, ho]
    exact hq.others
  · rw [hquit, hc]
    exact hq.own

/-- Before `Loop` starts nobody has set the flag, so clearing it loses nothing. -/
theorem quitting_startLoop {l : EventLoop F} (hq : Quitting l) (hp : l.phase = .published) :
    Quitting { l with phase := .testQuit, looping := true, quit := false } := by
  have hf : l.quit ≠ true := fun h => hq.started h (Or.inr hp)
  exact ⟨by simp, by simp, fun h => absurd (hq.returned h) hf, fun t h => absurd (hq.others t h) hf,
    fun h => absurd (hq.own h) hf⟩

theorem inUserCode_awake {l : EventLoop F} (hu : l.InUserCode) : ¬Sleeping l := by
  rcases hu.2 with hp | ⟨active, hp⟩ | ⟨functors, hp⟩
  · simp [Sleeping, hp]
  · simp [Sleeping, hp]
  · simp [Sleeping, hp]

theorem quitting_ownQuit {l : EventLoop F} (hu : l.InUserCode) (ht : Timely l .ownQuit) :
    Quitting (l.setQuit.setOwnCall .quitting) := by
  have hs := inUserCode_awake hu
  exact ⟨fun _ => ht, fun _ h => absurd h hs, fun _ => rfl, fun _ _ => rfl, fun _ => rfl⟩

theorem quitting_otherQuit {l : EventLoop F} {t : Nat} (ht : Timely l (.otherQuit t)) :
    Quitting (l.setQuit.setOther t .quitting) :=
  ⟨fun _ => ht.1, fun _ => ht.2, fun _ => rfl, fun _ _ => rfl, fun _ => rfl⟩

theorem quitting_setOther {l : EventLoop F} {t : Nat} {c : CallStage} (hq : Quitting l)
    (hc : c ≠ .quitting) : Quitting (l.setOther t c) := by
  refine ⟨hq.started, hq.awake, hq.returned, ?_, hq.own⟩
  intro u hu
  by_cases he : u = t
  · subst he
    simp only [setOther, Function.update_self] at hu
    exact absurd hu hc
  · simp only [setOther, Function.update_of_ne he] at hu
    exact hq.others u hu

/-- More wakeups never put the loop to sleep. -/
theorem quitting_wake {l : EventLoop F} (hq : Quitting l) : Quitting l.wake :=
  ⟨hq.started, fun _ _ => Nat.succ_pos _, hq.returned, hq.others, hq.own⟩

theorem quitting_setOwnCall {l : EventLoop F} {c : CallStage} (hq : Quitting l)
    (hc : c ≠ .quitting) : Quitting (l.setOwnCall c) :=
  ⟨hq.started, hq.awake, hq.returned, hq.others, fun h => absurd h hc⟩

theorem step_quitting {l l' : EventLoop F} {a : Action F} (hq : Quitting l) (h : LoopStep l a l')
    (ht : Timely l a) : Quitting l' := by
  cases h with
  | callThreadInit hp =>
    exact quitting_of_phase hq rfl rfl rfl rfl
      fun h => absurd (Or.inl (Or.inl hp)) (hq.started h)
  | threadInitReturns hp _ =>
    exact quitting_of_phase hq rfl rfl rfl rfl
      fun h => absurd (Or.inl (Or.inr (Or.inl hp))) (hq.started h)
  | publish hp =>
    have hb : BeforeLoop _ := Or.inl (hp.imp_right Or.inr)
    exact quitting_of_phase hq rfl rfl rfl rfl fun h => absurd hb (hq.started h)
  | startLoop hp _ => exact quitting_startLoop hq hp
  | testQuit hp =>
    split
    · exact quitting_of_phase hq rfl rfl rfl rfl fun _ => by
        simp [BeforeLoop, Unpublished, Sleeping]
    · rename_i hf
      exact quitting_of_phase hq rfl rfl rfl rfl fun h => absurd h hf
  | enterPoll hp =>
    refine quitting_of_phase hq rfl rfl rfl rfl fun h =>
      ⟨by simp [BeforeLoop, Unpublished], fun _ => ?_⟩
    exact hq.awake h (Or.inl hp)
  | pollReturns hp _ | handleWakeup hp | callUser hp | userReturns hp _ | handled hp | swap hp
  | callFunctor hp | functorReturns hp _ | batchDone hp =>
    exact quitting_of_phase hq rfl rfl rfl rfl fun _ => by simp [BeforeLoop, Unpublished, Sleeping]
  | ownPush hu =>
    exact quitting_setOwnCall (l := l.push _)
      ⟨hq.started, hq.awake, hq.returned, hq.others, hq.own⟩ (by simp)
  | ownWake hc =>
    split
    · exact quitting_setOwnCall (quitting_wake hq) (by simp)
    · exact quitting_setOwnCall hq (by simp)
  | ownQuit hu => exact quitting_ownQuit hu ht
  | ownQuitWake hc =>
    have hw := quitting_setOwnCall (c := .none) (quitting_wake hq) (by simp)
    exact ⟨hw.started, hw.awake, fun _ => hq.own hc, hw.others, hw.own⟩
  | otherPush hp hc =>
    exact quitting_setOther (l := l.push _)
      ⟨hq.started, hq.awake, hq.returned, hq.others, hq.own⟩ (by simp)
  | otherWake hc => exact quitting_setOther (quitting_wake hq) (by simp)
  | otherQuit hp hc => exact quitting_otherQuit ht
  | @otherQuitReturns t hc =>
    have ho := quitting_setOther (t := t) (c := .none) hq (by simp)
    exact ⟨ho.started, ho.awake, fun _ => hq.others t hc, ho.others, ho.own⟩

theorem run_quitting {l l' : EventLoop F} {steps : List (Action F)}
    (hr : Run (fun l a l' => LoopStep l a l' ∧ Timely l a) l steps l') (hq : Quitting l) :
    Quitting l' :=
  hr.invariant (P := Quitting) (fun _ _ _ hs h => step_quitting hs h.1 h.2) hq

/-- In every run in which each `Quit` is timely: once some `Quit` has returned, `quit_` is set,
and a loop thread blocked in `Poll` has its eventfd readable. -/
theorem timely_quit_is_kept {l : EventLoop F} {steps : List (Action F)}
    (hr : Run (fun l a l' => LoopStep l a l' ∧ Timely l a) (EventLoop.new F) steps l)
    (hret : l.quitReturned = true) :
    l.quit = true ∧ (l.phase = .polling → 0 < l.wakeup) := by
  have hq := run_quitting hr quitting_new
  have hset := hq.returned hret
  exact ⟨hset, fun hp => hq.awake hset (Or.inr hp)⟩

/-- Another thread quits while the loop handles events. -/
theorem timely_quit_while_handling :
    ∃ l : EventLoop Nat, Run (fun l a l' => LoopStep l a l' ∧ Timely l a) (EventLoop.new Nat)
        [.publish, .startLoop, .testQuit, .enterPoll, .pollReturns [], .otherQuit 3,
          .otherQuitReturns 3] l ∧
      l.quitReturned = true ∧ l.quit = true ∧ (l.phase = .polling → 0 < l.wakeup) := by
  have hr : ∃ l : EventLoop Nat, Run (fun l a l' => LoopStep l a l' ∧ Timely l a)
      (EventLoop.new Nat) [.publish, .startLoop, .testQuit, .enterPoll, .pollReturns [],
        .otherQuit 3, .otherQuitReturns 3] l ∧ l.quitReturned = true :=
    ⟨_, .cons ⟨.publish (.inl rfl), trivial⟩ (.cons ⟨.startLoop rfl rfl, trivial⟩
      (.cons ⟨.testQuit rfl, trivial⟩ (.cons ⟨.enterPoll rfl, trivial⟩
      (.cons ⟨.pollReturns rfl (by simp), trivial⟩
      (.cons ⟨.otherQuit (by simp) rfl, by simp [BeforeLoop, Unpublished], by simp [Sleeping]⟩
      (.single ⟨.otherQuitReturns (by simp [setOther]), trivial⟩)))))), rfl⟩
  obtain ⟨l, hr, hret⟩ := hr
  exact ⟨l, hr, hret, timely_quit_is_kept hr hret⟩

/-- Three lost calls of `Quit`: one of another thread leaves the loop asleep in `Poll` with
an unreadable eventfd, another one and one of `callback_` are undone when `Loop` starts. -/
theorem quit_is_lost :
    (∃ l : EventLoop Nat, Run LoopStep (EventLoop.new Nat)
        [.publish, .startLoop, .testQuit, .enterPoll, .otherQuit 3, .otherQuitReturns 3] l ∧
      l.quitReturned = true ∧ l.phase = .polling ∧ ¬0 < l.wakeup) ∧
    (∃ l : EventLoop Nat, Run LoopStep (EventLoop.new Nat)
        [.publish, .otherQuit 3, .otherQuitReturns 3, .startLoop] l ∧
      l.quitReturned = true ∧ ¬l.quit = true) ∧
    ∃ l : EventLoop Nat, Run LoopStep (EventLoop.new Nat)
        [.callThreadInit, .ownQuit, .ownQuitWake, .threadInitReturns, .publish, .startLoop] l ∧
      l.quitReturned = true ∧ ¬l.quit = true := by
  refine ⟨?_, ?_, ?_⟩
  · refine ⟨_, .cons (.publish (.inl rfl)) (.cons (.startLoop rfl rfl) (.cons (.testQuit rfl)
      (.cons (.enterPoll rfl) (.cons (.otherQuit (by simp) rfl)
      (.single (.otherQuitReturns (by simp [setOther]))))))), rfl, rfl, by decide⟩
  · refine ⟨_, .cons (.publish (.inl rfl)) (.cons (.otherQuit (by simp) rfl)
      (.cons (.otherQuitReturns (by simp [setOther])) (.single (.startLoop rfl rfl)))), rfl, ?_⟩
    decide
  · refine ⟨_, .cons (.callThreadInit rfl) (.cons (.ownQuit ⟨rfl, .inl rfl⟩)
      (.cons (.ownQuitWake rfl) (.cons (.threadInitReturns rfl rfl) (.cons (.publish (.inr rfl))
      (.single (.startLoop rfl rfl)))))), rfl, ?_⟩
    decide

end RyanNetwork.Net

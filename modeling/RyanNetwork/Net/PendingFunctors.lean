import RyanNetwork.Net.EventLoop

/-!
# Pending functors: order, single execution and wakeups

Over every interleaving the functors executed, then the rest of the batch, then
the queue are the functors pushed so far; a batch holds none that was pushed
while it runs. And whenever the loop thread is about to sleep on a non-empty
queue, the eventfd is readable or a pushing thread has yet to write it.
-/
namespace RyanNetwork.Net

open Lib EventLoop

set_option autoImplicit false

variable {F : Type}

/-! ## Order -/

/-- The functors already executed, oldest first. -/
def executedFunctors (l : EventLoop F) : List (Entry F) := l.executed.map Prod.fst

/-- What the queue law needs to be inductive: every entry waits for a call of
`DoPendingFunctors` later than the one during which it was pushed. -/
structure Ordered (l : EventLoop F) : Prop where
  order : executedFunctors l ++ l.rest ++ l.pendingFunctors = l.pushed
  executed : ∀ x ∈ l.executed, x.1.during ≠ some x.2
  batch : ∀ e ∈ l.rest, e.during ≠ some l.calls
  pending : ∀ e ∈ l.pendingFunctors, ∀ r, e.during = some r → r ≤ l.calls
  beforeSwap : l.phase = .beforeSwap →
    ∀ e ∈ l.pendingFunctors, ∀ r, e.during = some r → r < l.calls

theorem ordered_new : Ordered (EventLoop.new F) :=
  ⟨rfl, by simp [EventLoop.new], by simp [EventLoop.new, rest], by simp [EventLoop.new],
    by simp [EventLoop.new]⟩

theorem rest_of_phase {l : EventLoop F} {functors : List (Entry F)} {b : Bool}
    (h : l.phase = .batch functors b) : l.rest = functors := by
  simp only [rest, h]

/-- A step of the loop thread outside `DoPendingFunctors` touches no functor. -/
theorem ordered_of_phase {l l' : EventLoop F} (ho : Ordered l) (hr : l'.rest = l.rest)
    (he : l'.executed = l.executed) (hc : l'.calls = l.calls)
    (hp : l'.pendingFunctors = l.pendingFunctors) (hpu : l'.pushed = l.pushed)
    (hb : l'.phase = .beforeSwap → l.phase = .beforeSwap) : Ordered l' := by
  refine ⟨?_, ?_, ?_, ?_, ?_⟩
  · rw [executedFunctors, hr, he, hp, hpu]
    exact ho.order
  · rw [he]
    exact ho.executed
  · rw [hr, hc]
    exact ho.batch
  · rw [hp, hc]
    exact ho.pending
  · rw [hp, hc]
    exact fun h => ho.beforeSwap (hb h)

theorem executing_le {l : EventLoop F} {r : Nat} (h : l.executing = some r) :
    r = l.calls ∧ l.phase ≠ .beforeSwap := by
  unfold executing at h
  split at h
  · rename_i hp
    cases h
    exact ⟨rfl, by simp [hp]⟩
  · cases h

theorem ordered_push {l : EventLoop F} (ho : Ordered l) (f : F) : Ordered (l.push f) := by
  refine ⟨?_, ho.executed, ho.batch, ?_, ?_⟩
  · change executedFunctors l ++ l.rest ++ (l.pendingFunctors ++ _) = l.pushed ++ _
    rw [← ho.order]
    simp only [List.append_assoc]
  · intro e he r hr
    rcases List.mem_append.mp he with hold | hnew
    · exact ho.pending e hold r hr
    · rw [List.mem_singleton.mp hnew] at hr
      exact Nat.le_of_eq (executing_le hr).1
  · intro hb e he r hr
    rcases List.mem_append.mp he with hold | hnew
    · exact ho.beforeSwap hb e hold r hr
    · rw [List.mem_singleton.mp hnew] at hr
      exact absurd hb (executing_le hr).2

theorem ordered_swap {l : EventLoop F} (ho : Ordered l) (hp : l.phase = .beforeSwap) :
    Ordered { l with phase := .batch l.pendingFunctors false, pendingFunctors := [] } := by
  refine ⟨?_, ho.executed, ?_, by simp, by simp⟩
  · have h := ho.order
    simp only [rest, hp, List.append_nil] at h
    simpa [rest, executedFunctors] using h
  · intro e he hd
    exact absurd (ho.beforeSwap hp e he _ hd) (Nat.lt_irrefl _)

theorem ordered_callFunctor {l : EventLoop F} {e : Entry F} {functors : List (Entry F)}
    (ho : Ordered l) (hp : l.phase = .batch (e :: functors) false) :
    Ordered { l with phase := .batch functors true, executed := l.executed ++ [(e, l.calls)] } := by
  have hrest := rest_of_phase hp
  refine ⟨?_, ?_, ?_, ho.pending, by simp⟩
  · have h := ho.order
    rw [hrest] at h
    simpa [rest, executedFunctors] using h
  · intro x hx
    rcases List.mem_append.mp hx with hold | hnew
    · exact ho.executed x hold
    · rw [List.mem_singleton.mp hnew]
      exact ho.batch e (by rw [hrest]; exact List.mem_cons_self)
  · intro d hd
    exact ho.batch d (by rw [hrest]; exact List.mem_cons_of_mem _ hd)

theorem step_ordered {l l' : EventLoop F} {a : Action F} (ho : Ordered l)
    (h : LoopStep l a l') : Ordered l' := by
  cases h with
  | callThreadInit hp | threadInitReturns hp _ | startLoop hp _ | enterPoll hp
  | pollReturns hp _ | handleWakeup hp | callUser hp | userReturns hp _ | functorReturns hp _ | batchDone hp =>
    exact ordered_of_phase ho (by simp [rest, hp]) rfl rfl rfl rfl (by simp)
  | publish hp =>
    have hr : l.rest = [] := by rcases hp with hp | hp <;> simp [rest, hp]
    exact ordered_of_phase ho hr.symm rfl rfl rfl rfl (by simp)
  | testQuit hp =>
    split
    · exact ordered_of_phase ho (by simp [rest, hp]) rfl rfl rfl rfl (by simp)
    · exact ordered_of_phase ho (by simp [rest, hp]) rfl rfl rfl rfl (by simp)
  | handled hp =>
    refine ⟨?_, ho.executed, by simp [rest], ?_, ?_⟩
    · have h := ho.order
      simp only [rest, hp] at h
      exact h
    · exact fun e he r hr => Nat.le_succ_of_le (ho.pending e he r hr)
    · exact fun _ e he r hr => Nat.lt_succ_of_le (ho.pending e he r hr)
  | swap hp => exact ordered_swap ho hp
  | callFunctor hp => exact ordered_callFunctor ho hp
  | ownPush hu => exact ordered_of_phase (ordered_push ho _) rfl rfl rfl rfl rfl id
  | otherPush hp hc => exact ordered_of_phase (ordered_push ho _) rfl rfl rfl rfl rfl id
  | ownWake hc =>
    split
    · exact ordered_of_phase ho rfl rfl rfl rfl rfl id
    · exact ordered_of_phase ho rfl rfl rfl rfl rfl id
  | ownQuit _ | ownQuitWake _ | otherWake _ | otherQuit _ _ | otherQuitReturns _ =>
    exact ordered_of_phase ho rfl rfl rfl rfl rfl id

theorem run_ordered {l l' : EventLoop F} {steps : List (Action F)} (hr : Run LoopStep l steps l')
    (ho : Ordered l) : Ordered l' :=
  hr.invariant (P := Ordered) (fun _ _ _ hs => step_ordered hs) ho

/-- At every point of every interleaving: the functors executed, then the rest of
the batch, then the queue are all functors pushed so far in push order; and no
functor is executed by the `DoPendingFunctors` call during whose batch it was
pushed. -/
theorem functors_run_once_in_order {l : EventLoop F} {steps : List (Action F)}
    (hr : Run LoopStep (EventLoop.new F) steps l) :
    executedFunctors l ++ l.rest ++ l.pendingFunctors = l.pushed ∧
      ∀ x ∈ l.executed, x.1.during ≠ some x.2 := by
  have ho := run_ordered hr ordered_new
  exact ⟨ho.order, ho.executed⟩

/-- One iteration in which a callback pushes a functor that pushes another. -/
theorem functors_run_once_in_order_nested :
    ∃ l : EventLoop Nat, Run LoopStep (EventLoop.new Nat)
        [.publish, .startLoop, .testQuit, .enterPoll, .pollReturns [.user], .callUser, .ownPush 1,
          .ownWake, .userReturns, .handled, .swap, .callFunctor, .ownPush 2] l ∧
      l.pushed = [⟨1, none⟩, ⟨2, some 1⟩] ∧ l.pendingFunctors = [⟨2, some 1⟩] ∧
      executedFunctors l ++ l.rest ++ l.pendingFunctors = l.pushed := by
  have hr : ∃ l : EventLoop Nat, Run LoopStep (EventLoop.new Nat)
      [.publish, .startLoop, .testQuit, .enterPoll, .pollReturns [.user], .callUser, .ownPush 1,
        .ownWake, .userReturns, .handled, .swap, .callFunctor, .ownPush 2] l ∧
      l.pushed = [⟨1, none⟩, ⟨2, some 1⟩] ∧ l.pendingFunctors = [⟨2, some 1⟩] :=
    ⟨_, .cons (.publish (.inl rfl)) (.cons (.startLoop rfl rfl) (.cons (.testQuit rfl)
      (.cons (.enterPoll rfl) (.cons (.pollReturns rfl (by simp)) (.cons (.callUser rfl)
      (.cons (.ownPush ⟨rfl, .inr (.inl ⟨[], rfl⟩)⟩) (.cons (.ownWake rfl)
      (.cons (.userReturns rfl rfl) (.cons (.handled rfl) (.cons (.swap rfl) (.cons (.callFunctor rfl)
      (.single (.ownPush ⟨rfl, .inr (.inr ⟨[], rfl⟩)⟩))))))))))))), rfl, rfl⟩
  obtain ⟨l, hr, hp, hq⟩ := hr
  exact ⟨l, hr, hp, hq, (functors_run_once_in_order hr).1⟩

/-! ## Wakeups -/

/-- The eventfd is readable, or some other thread has yet to write it. -/
def Waking (l : EventLoop F) : Prop := 0 < l.wakeup ∨ ∃ t, l.others t = .pushed

/-- The loop thread pushes only from channel callbacks and functors: what `callback_` pushes
before `Loop` is followed by no `Wakeup`. -/
def FromLoop (l : EventLoop F) : Action F → Prop
  | .ownPush _ => l.phase ≠ .initializing
  | _ => True

/-- The loop thread will look at the queue, or write the eventfd, before it sleeps. -/
def Draining (l : EventLoop F) : Prop :=
  (∃ active b, l.phase = .handling active b) ∨ l.phase = .beforeSwap ∨ l.phase = .exited ∨
    (∃ functors, l.phase = .batch functors true) ∧ l.ownCall = .pushed

structure Attended (l : EventLoop F) : Prop where
  calling : (l.phase = .beforeSwap ∨ ∃ functors b, l.phase = .batch functors b) →
    l.callingPendingFunctors = true
  own : l.ownCall ≠ .none →
    l.phase = .initializing ∧ l.ownCall = .quitting ∨
      (∃ active, l.phase = .handling active true) ∨ ∃ functors, l.phase = .batch functors true
  pending : l.pendingFunctors ≠ [] → Waking l ∨ Draining l

theorem attended_new : Attended (EventLoop.new F) :=
  ⟨by simp [EventLoop.new], by simp [EventLoop.new], by simp [EventLoop.new]⟩

/-- Outside its own sections the loop thread relies on the eventfd. -/
theorem attended_waking {l : EventLoop F} (hl : Attended l) (hd : ¬Draining l)
    (hp : l.pendingFunctors ≠ []) : Waking l :=
  (hl.pending hp).resolve_right hd

/-- Steps that neither push, wake nor take part in draining the queue. -/
theorem attended_of_phase {l l' : EventLoop F} (hl : Attended l) (hd : ¬Draining l)
    (hp : l'.pendingFunctors = l.pendingFunctors) (hw : l'.wakeup = l.wakeup)
    (ho : l'.others = l.others) (hc : l'.ownCall = .none)
    (hcall : (l'.phase = .beforeSwap ∨ ∃ functors b, l'.phase = .batch functors b) →
      l'.callingPendingFunctors = true) : Attended l' := by
  refine ⟨hcall, fun h => absurd hc h, ?_⟩
  rw [hp]
  intro hne
  refine Or.inl ?_
  unfold Waking
  rw [hw, ho]
  exact attended_waking hl hd hne

theorem ownCall_none {l : EventLoop F} (hl : Attended l) (hi : l.phase ≠ .initializing)
    (hh : ∀ active, l.phase ≠ .handling active true)
    (hb : ∀ functors, l.phase ≠ .batch functors true) : l.ownCall = .none := by
  by_contra hc
  rcases hl.own hc with ⟨hp, -⟩ | ⟨active, hp⟩ | ⟨functors, hp⟩
  · exact hi hp
  · exact hh active hp
  · exact hb functors hp

/-- Steps after which the loop thread still has to look at the queue. -/
theorem attended_draining {l : EventLoop F} (hc : l.ownCall = .none) (hd : Draining l)
    (hcall : (l.phase = .beforeSwap ∨ ∃ functors b, l.phase = .batch functors b) →
      l.callingPendingFunctors = true) : Attended l :=
  ⟨hcall, fun h => absurd hc h, fun _ => Or.inr hd⟩

theorem waking_setOther {l : EventLoop F} {t : Nat} {c : CallStage} (hw : Waking l)
    (ht : l.others t ≠ .pushed) : Waking (l.setOther t c) := by
  rcases hw with hw | ⟨u, hu⟩
  · exact Or.inl hw
  · refine Or.inr ⟨u, ?_⟩
    have hne : u ≠ t := by
      rintro rfl
      exact ht hu
    simp only [setOther, Function.update_of_ne hne]
    exact hu

theorem attended_setOther {l : EventLoop F} {t : Nat} {c : CallStage} (hl : Attended l)
    (ht : l.others t ≠ .pushed) : Attended (l.setOther t c) :=
  ⟨hl.calling, hl.own, fun hp => (hl.pending hp).imp (waking_setOther · ht) id⟩

theorem attended_ownPush {l : EventLoop F} {f : F} (hl : Attended l) (hu : l.InUserCode)
    (hf : FromLoop l (.ownPush f)) : Attended ((l.push f).setOwnCall .pushed) := by
  have hin := hu.2.resolve_left hf
  refine ⟨hl.calling, fun _ => Or.inr hin, fun _ => Or.inr ?_⟩
  rcases hin with ⟨active, hp⟩ | hb
  · exact Or.inl ⟨active, true, hp⟩
  · exact Or.inr (Or.inr (Or.inr ⟨hb, rfl⟩))

/-- The loop thread wakes itself after a push from a functor; after a push from a
channel callback it need not, since the queue is drained in the same iteration. -/
theorem attended_ownWake {l : EventLoop F} (hl : Attended l) (hc : l.ownCall = .pushed) :
    Attended ((if l.callingPendingFunctors then l.wake else l).setOwnCall .none) := by
  split
  · exact ⟨hl.calling, fun h => absurd rfl h, fun _ => Or.inl (Or.inl (Nat.succ_pos _))⟩
  · rename_i hcall
    refine attended_draining rfl ?_ hl.calling
    rcases hl.own (by rw [hc]; simp) with ⟨-, hq⟩ | ⟨active, hp⟩ | ⟨functors, hp⟩
    · rw [hc] at hq
      cases hq
    · exact Or.inl ⟨active, true, hp⟩
    · exact absurd (hl.calling (Or.inr ⟨functors, true, hp⟩)) hcall

theorem attended_ownQuit {l : EventLoop F} (hl : Attended l) (hu : l.InUserCode) :
    Attended (l.setQuit.setOwnCall .quitting) := by
  refine ⟨hl.calling, fun _ => hu.2.imp_left fun hp => ⟨hp, rfl⟩, fun hne => ?_⟩
  rcases hl.pending hne with hw | hd | hd | hd | ⟨-, hd⟩
  · exact Or.inl hw
  · exact Or.inr (Or.inl hd)
  · exact Or.inr (Or.inr (Or.inl hd))
  · exact Or.inr (Or.inr (Or.inr (Or.inl hd)))
  · rw [hu.1] at hd
    cases hd

theorem step_attended {l l' : EventLoop F} {a : Action F} (hl : Attended l)
    (h : LoopStep l a l') (hf : FromLoop l a) : Attended l' := by
  cases h with
  | callThreadInit hp | startLoop hp _ | enterPoll hp | batchDone hp =>
    have hc : l.ownCall = .none := ownCall_none hl (by simp [hp]) (by simp [hp]) (by simp [hp])
    exact attended_of_phase hl (by simp [Draining, hp]) rfl rfl rfl hc (by simp)
  | threadInitReturns hp hc =>
    exact attended_of_phase hl (by simp [Draining, hp]) rfl rfl rfl hc (by simp)
  | publish hp =>
    have hd : ¬Draining l := by rcases hp with hp | hp <;> simp [Draining, hp]
    have hc : l.ownCall = .none := by
      rcases hp with hp | hp <;> exact ownCall_none hl (by simp [hp]) (by simp [hp]) (by simp [hp])
    exact attended_of_phase hl hd rfl rfl rfl hc (by simp)
  | testQuit hp =>
    have hc : l.ownCall = .none := ownCall_none hl (by simp [hp]) (by simp [hp]) (by simp [hp])
    split
    · exact attended_draining hc (by simp [Draining]) (by simp)
    · exact attended_of_phase hl (by simp [Draining, hp]) rfl rfl rfl hc (by simp)
  | pollReturns hp _ | handleWakeup hp | callUser hp =>
    have hc : l.ownCall = .none := ownCall_none hl (by simp [hp]) (by simp [hp]) (by simp [hp])
    exact attended_draining hc (by simp [Draining]) (by simp)
  | userReturns hp hc => exact attended_draining hc (by simp [Draining]) (by simp)
  | handled hp =>
    have hc : l.ownCall = .none := ownCall_none hl (by simp [hp]) (by simp [hp]) (by simp [hp])
    exact attended_draining hc (by simp [Draining]) (fun _ => rfl)
  | swap hp =>
    have hc : l.ownCall = .none := ownCall_none hl (by simp [hp]) (by simp [hp]) (by simp [hp])
    exact ⟨fun _ => hl.calling (Or.inl hp), fun h => absurd hc h, fun h => absurd rfl h⟩
  | callFunctor hp =>
    have hc : l.ownCall = .none := ownCall_none hl (by simp [hp]) (by simp [hp]) (by simp [hp])
    exact attended_of_phase hl (by simp [Draining, hp]) rfl rfl rfl hc
      (fun _ => hl.calling (Or.inr ⟨_, _, hp⟩))
  | functorReturns hp hc =>
    exact attended_of_phase hl (by simp [Draining, hp, hc]) rfl rfl rfl hc
      (fun _ => hl.calling (Or.inr ⟨_, _, hp⟩))
  | ownPush hu => exact attended_ownPush hl hu hf
  | ownWake hc => exact attended_ownWake hl hc
  | ownQuit hu => exact attended_ownQuit hl hu
  | ownQuitWake hc =>
    exact ⟨hl.calling, fun h => absurd rfl h, fun _ => Or.inl (Or.inl (Nat.succ_pos _))⟩
  | @otherPush t f hp hc =>
    exact ⟨hl.calling, hl.own, fun _ => Or.inl (Or.inr ⟨t, Function.update_self ..⟩)⟩
  | otherWake hc => exact ⟨hl.calling, hl.own, fun _ => Or.inl (Or.inl (Nat.succ_pos _))⟩
  | otherQuit hp hc =>
    exact attended_setOther (l := l.setQuit) ⟨hl.calling, hl.own, hl.pending⟩ (by simp [setQuit, hc])
  | otherQuitReturns hc =>
    have ho := attended_setOther (c := .none) hl (by rw [hc]; simp)
    exact ⟨ho.calling, ho.own, ho.pending⟩

theorem run_attended {l l' : EventLoop F} {steps : List (Action F)}
    (hr : Run (fun l a l' => LoopStep l a l' ∧ FromLoop l a) l steps l') (hl : Attended l) :
    Attended l' :=
  hr.invariant (P := Attended) (fun _ _ _ hs h => step_attended hs h.1 h.2) hl

/-- No lost wakeup: whenever the loop thread is entering `Poll` or blocked in it
while functors are pending, the eventfd is readable or another thread is between
its push and its `Wakeup`. -/
theorem no_lost_wakeup {l : EventLoop F} {steps : List (Action F)}
    (hr : Run (fun l a l' => LoopStep l a l' ∧ FromLoop l a) (EventLoop.new F) steps l)
    (hp : l.phase = .entering ∨ l.phase = .polling) (hq : l.pendingFunctors ≠ []) :
    0 < l.wakeup ∨ ∃ t, l.others t = .pushed := by
  refine attended_waking (run_attended hr attended_new) ?_ hq
  rcases hp with hp | hp <;> simp [Draining, hp]

/-- Another thread pushes while the loop is blocked in `Poll`. -/
theorem no_lost_wakeup_other_thread :
    ∃ l : EventLoop Nat, Run (fun l a l' => LoopStep l a l' ∧ FromLoop l a) (EventLoop.new Nat)
        [.publish, .startLoop, .testQuit, .enterPoll, .otherPush 3 1] l ∧
      l.phase = .polling ∧ l.pendingFunctors ≠ [] ∧ (0 < l.wakeup ∨ ∃ t, l.others t = .pushed) := by
  have hr : ∃ l : EventLoop Nat, Run (fun l a l' => LoopStep l a l' ∧ FromLoop l a)
      (EventLoop.new Nat) [.publish, .startLoop, .testQuit, .enterPoll, .otherPush 3 1] l ∧
      l.phase = .polling ∧ l.pendingFunctors = [⟨1, none⟩] :=
    ⟨_, .cons ⟨.publish (.inl rfl), trivial⟩ (.cons ⟨.startLoop rfl rfl, trivial⟩
      (.cons ⟨.testQuit rfl, trivial⟩ (.cons ⟨.enterPoll rfl, trivial⟩
      (.single ⟨.otherPush (by simp) rfl, trivial⟩)))), rfl, rfl⟩
  obtain ⟨l, hr, hp, hq⟩ := hr
  have hne : l.pendingFunctors ≠ [] := by simp [hq]
  exact ⟨l, hr, hp, hne, no_lost_wakeup hr (.inr hp) hne⟩

end RyanNetwork.Net

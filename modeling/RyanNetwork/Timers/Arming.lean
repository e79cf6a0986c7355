import RyanNetwork.Lib.Runs
import RyanNetwork.Timers.TimerQueue

/-!
# The timerfd is armed for the earliest timer

`AddTimerInLoop` arms the timerfd when the earliest expiration changes, and
`Reset` once for every expired timer. A firing that finds no timer expired, which
a wall clock set back produces, therefore arms nothing.
-/
namespace RyanNetwork.Timers

open Lib TimerQueue

set_option autoImplicit false

variable {clock : Nat → Int}

/-! ## The set of timers -/

/-- The set is ordered, and its keys are the expirations of its timers. -/
structure Ordered (q : TimerQueue) : Prop where
  sorted : q.timers.Pairwise fun a b => a.time ≤ b.time
  key : ∀ e ∈ q.timers, e.timer.expiration = e.time
  addr : ∀ e ∈ q.timers, e.timer.addr < UINTPTR_MAX

theorem less_time {e : Entry} {time : Int} {addr : Nat} (h : e.less time addr = true) :
    e.time ≤ time := by
  simp only [Entry.less, Bool.or_eq_true, decide_eq_true_eq, Bool.and_eq_true, beq_iff_eq] at h
  omega

theorem time_of_not_less {e : Entry} {time : Int} {addr : Nat} (h : ¬e.less time addr = true) :
    time ≤ e.time := by
  simp only [Entry.less, Bool.or_eq_true, decide_eq_true_eq, Bool.and_eq_true, beq_iff_eq] at h
  omega

/-- Below the sentry of `GetExpired` are exactly the entries whose time has come. -/
theorem less_sentry {e : Entry} {now : Int} (ha : e.timer.addr < UINTPTR_MAX) :
    e.less now UINTPTR_MAX = true ↔ e.time ≤ now := by
  simp only [Entry.less, Bool.or_eq_true, decide_eq_true_eq, Bool.and_eq_true, beq_iff_eq, ha,
    and_true]
  omega

theorem mem_insertEntry {e a : Entry} {l : List Entry} (h : a ∈ insertEntry e l) :
    a = e ∨ a ∈ l := by
  induction l with
  | nil => exact Or.inl (List.mem_singleton.mp h)
  | cons x xs ih =>
    unfold insertEntry at h
    split at h
    · exact List.mem_cons.mp h
    · split at h
      · rcases List.mem_cons.mp h with rfl | hx
        · exact Or.inr List.mem_cons_self
        · exact (ih hx).imp id (List.mem_cons_of_mem _)
      · exact Or.inr h

theorem sorted_insertEntry {e : Entry} {l : List Entry}
    (h : l.Pairwise fun a b => a.time ≤ b.time) :
    (insertEntry e l).Pairwise fun a b => a.time ≤ b.time := by
  induction l with
  | nil => exact List.pairwise_singleton _ _
  | cons x xs ih =>
    obtain ⟨hx, hxs⟩ := List.pairwise_cons.mp h
    unfold insertEntry
    split
    · rename_i hl
      refine List.pairwise_cons.mpr ⟨?_, h⟩
      intro a ha
      rcases List.mem_cons.mp ha with rfl | ha
      · exact less_time hl
      · exact Int.le_trans (less_time hl) (hx a ha)
    · split
      · rename_i hl
        refine List.pairwise_cons.mpr ⟨?_, ih hxs⟩
        intro a ha
        rcases mem_insertEntry ha with rfl | ha
        · exact less_time hl
        · exact hx a ha
      · exact h

/-- Inserting before the earliest entry replaces it, and leaves its time otherwise. -/
theorem insertEntry_head (e : Entry) (l : List Entry) :
    ∃ x xs, insertEntry e l = x :: xs ∧
      ∀ y ∈ l.head?, x.time = if e.time < y.time then e.time else y.time := by
  cases l with
  | nil => exact ⟨e, [], rfl, by simp⟩
  | cons y ys =>
    unfold insertEntry
    split
    · rename_i hl
      have ht := less_time hl
      refine ⟨e, _, rfl, ?_⟩
      rintro z hz
      cases Option.some.inj hz
      split
      · rfl
      · omega
    · rename_i hn
      have ht := time_of_not_less hn
      split
      · refine ⟨y, _, rfl, ?_⟩
        rintro z hz
        cases Option.some.inj hz
        rw [if_neg (by omega)]
      · refine ⟨y, _, rfl, ?_⟩
        rintro z hz
        cases Option.some.inj hz
        rw [if_neg (by omega)]

theorem ordered_insert {q : TimerQueue} {t : Timer} (ho : Ordered q) (ht : t.addr < UINTPTR_MAX) :
    Ordered (q.insert t) := by
  refine ⟨sorted_insertEntry ho.sorted, ?_, ?_⟩
  · intro e he
    rcases mem_insertEntry he with rfl | he
    · rfl
    · exact ho.key e he
  · intro e he
    rcases mem_insertEntry he with rfl | he
    · exact ht
    · exact ho.addr e he

/-- The order does not depend on the timerfd, the flag or the clock. -/
theorem ordered_of_timers {q q' : TimerQueue} (ho : Ordered q) (h : q'.timers = q.timers) :
    Ordered q' := by
  obtain ⟨hs, hk, ha⟩ := ho
  exact ⟨by rw [h]; exact hs, by rw [h]; exact hk, by rw [h]; exact ha⟩

theorem ordered_addTimerInLoop {q : TimerQueue} {t : Timer} (ho : Ordered q)
    (ht : t.addr < UINTPTR_MAX) : Ordered (q.addTimerInLoop clock t) := by
  unfold addTimerInLoop
  split
  · exact ordered_of_timers (ordered_insert ho ht) rfl
  · exact ordered_insert ho ht

theorem ordered_addTimers {q : TimerQueue} {ts : List Timer} (ho : Ordered q)
    (ht : ∀ t ∈ ts, t.addr < UINTPTR_MAX) : Ordered (q.addTimers clock ts) := by
  induction ts generalizing q with
  | nil => exact ho
  | cons t ts ih =>
    exact ih (ordered_addTimerInLoop ho (ht t List.mem_cons_self))
      fun u hu => ht u (List.mem_cons_of_mem _ hu)

theorem ordered_runCallbacks {q : TimerQueue} {adds : Timer → List Timer} {es : List Entry}
    (ho : Ordered q) (ha : ∀ s, ∀ t ∈ adds s, t.addr < UINTPTR_MAX) :
    Ordered (q.runCallbacks clock adds es) := by
  induction es generalizing q with
  | nil => exact ho
  | cons e es ih => exact ih (ordered_addTimers ho (ha e.timer))

theorem ordered_callExpired {q : TimerQueue} {adds : Timer → List Timer} {es : List Entry}
    (ho : Ordered q) (ha : ∀ s, ∀ t ∈ adds s, t.addr < UINTPTR_MAX) :
    Ordered (q.callExpired clock adds es) := by
  have hflag : Ordered { q with callingExpiredTimers := true } := ordered_of_timers ho rfl
  have hrun : Ordered (runCallbacks clock { q with callingExpiredTimers := true } adds es) :=
    ordered_runCallbacks hflag ha
  exact ordered_of_timers hrun rfl

theorem ordered_restartExpired {q : TimerQueue} {t : Timer} (ho : Ordered q)
    (ht : t.addr < UINTPTR_MAX) : Ordered (q.restartExpired clock t) := by
  unfold restartExpired
  split
  · refine ordered_insert (ordered_of_timers ho rfl) ?_
    unfold Timer.restart
    split
    · exact ht
    · exact ht
  · exact ho

theorem rearm_timers (q : TimerQueue) : (q.rearm clock).timers = q.timers := by
  unfold rearm
  split
  · rfl
  · rfl

theorem ordered_getExpired {q : TimerQueue} (ho : Ordered q) (now : Int) :
    Ordered (q.getExpired now) := by
  have hsub : (q.timers.dropWhile (·.less now UINTPTR_MAX)).Sublist q.timers :=
    List.dropWhile_sublist _
  exact ⟨ho.sorted.sublist hsub, fun e he => ho.key e (hsub.subset he),
    fun e he => ho.addr e (hsub.subset he)⟩

/-! ## Arming -/

/-- A pending timer has the timerfd armed, by a `ResetTimerfd` for the earliest
expiration in the set and with a positive delay. -/
def ArmedForEarliest (q : TimerQueue) : Prop :=
  q.timers ≠ [] → ∃ a, q.timerfd = some a ∧ 0 < a.delay ∧
    (∃ e ∈ q.timers, e.time = a.expiration) ∧ ∀ e ∈ q.timers, a.expiration ≤ e.time

/-- The same in terms of `timers_.begin()`. -/
def HeadArmed (q : TimerQueue) : Prop :=
  ∀ e ∈ q.timers.head?, ∃ a, q.timerfd = some a ∧ a.expiration = e.time ∧ 0 < a.delay

theorem resetTimerfd_armed (q : TimerQueue) (expiration : Int) :
    ∃ a, (q.resetTimerfd clock expiration).timerfd = some a ∧ a.expiration = expiration ∧
      0 < a.delay := by
  refine ⟨_, rfl, rfl, ?_⟩
  dsimp only
  split
  · decide
  · omega

/-- The first entry of the ordered set is the earliest. -/
theorem head_earliest {q : TimerQueue} (ho : Ordered q) {e : Entry} (he : e ∈ q.timers.head?) :
    e ∈ q.timers ∧ ∀ d ∈ q.timers, e.time ≤ d.time := by
  have hs := ho.sorted
  cases hq : q.timers with
  | nil =>
    rw [hq] at he
    cases he
  | cons x xs =>
    rw [hq] at he hs
    cases Option.some.inj he
    refine ⟨List.mem_cons_self, ?_⟩
    intro d hd
    rcases List.mem_cons.mp hd with rfl | hd
    · exact Int.le_refl _
    · exact (List.pairwise_cons.mp hs).1 d hd

theorem headArmed_earliest {q : TimerQueue} (ho : Ordered q) (hh : HeadArmed q) :
    ArmedForEarliest q := by
  intro hne
  have he : q.timers.head hne ∈ q.timers.head? := List.head_mem_head? hne
  obtain ⟨a, ha, hexp, hpos⟩ := hh _ he
  obtain ⟨hm, hmin⟩ := head_earliest ho he
  exact ⟨a, ha, hpos, ⟨_, hm, hexp.symm⟩, fun e hem => hexp ▸ hmin e hem⟩

theorem addTimerInLoop_headArmed {q : TimerQueue} {t : Timer} (hh : HeadArmed q) :
    HeadArmed (q.addTimerInLoop clock t) := by
  obtain ⟨x, xs, hx, htime⟩ := insertEntry_head ⟨t.expiration, t⟩ q.timers
  have hx : (q.insert t).timers = x :: xs := hx
  unfold addTimerInLoop earliestChanged
  cases hq : q.timers with
  | nil =>
    have hnew : x.time = t.expiration := by
      have hone : (q.insert t).timers = [⟨t.expiration, t⟩] := by simp [TimerQueue.insert, hq, insertEntry]
      rw [hone] at hx
      rw [← (List.cons.inj hx).1]
    rw [if_pos rfl]
    intro e he
    change e ∈ (q.insert t).timers.head? at he
    rw [hx] at he
    cases Option.some.inj he
    rw [hnew]
    exact resetTimerfd_armed _ _
  | cons y ys =>
    have hy : y ∈ q.timers.head? := by simp [hq]
    have hmin := htime y hy
    dsimp only
    split
    · rename_i hlt
      rw [if_pos (of_decide_eq_true hlt)] at hmin
      intro e he
      change e ∈ (q.insert t).timers.head? at he
      rw [hx] at he
      cases Option.some.inj he
      rw [hmin]
      exact resetTimerfd_armed _ _
    · rename_i hlt
      rw [if_neg (fun h => hlt (decide_eq_true h))] at hmin
      intro e he
      rw [hx] at he
      cases Option.some.inj he
      rw [hmin]
      exact hh y hy

theorem rearm_headArmed {q : TimerQueue} (ho : Ordered q) : HeadArmed (q.rearm clock) := by
  intro e he
  rw [rearm_timers] at he
  unfold rearm
  cases hq : q.timers with
  | nil =>
    rw [hq] at he
    cases he
  | cons x xs =>
    rw [hq] at he
    cases Option.some.inj he
    rw [← ho.key e (by rw [hq]; exact List.mem_cons_self)]
    exact resetTimerfd_armed _ _

variable (clock) in
/-- `Reset` arms the timerfd for the first entry if any timer had expired. -/
theorem reset_armed {q : TimerQueue} {es : List Entry} (ho : Ordered q)
    (ha : ∀ e ∈ es, e.timer.addr < UINTPTR_MAX) :
    Ordered (q.reset clock es) ∧ (HeadArmed q ∨ es ≠ [] → HeadArmed (q.reset clock es)) := by
  induction es generalizing q with
  | nil => exact ⟨ho, fun h => h.resolve_right (by simp)⟩
  | cons e es ih =>
    have hr : Ordered (q.restartExpired clock e.timer) :=
      ordered_restartExpired ho (ha e List.mem_cons_self)
    have hi := ih (q := (q.restartExpired clock e.timer).rearm clock)
      (ordered_of_timers hr (rearm_timers _)) fun d hd => ha d (List.mem_cons_of_mem _ hd)
    exact ⟨hi.1, fun _ => hi.2 (Or.inl (rearm_headArmed hr))⟩

/-! ## Firings -/

/-- The timerfd fires, which disarms it, and `HandleRead` handles it. -/
def fire (clock : Nat → Int) (q : TimerQueue) (adds : Timer → List Timer) : TimerQueue :=
  { q with timerfd := none }.handleRead clock adds

/-- No timer is pending, or one has expired by the clock that `HandleRead` reads. -/
def InTime (clock : Nat → Int) (q : TimerQueue) : Prop :=
  q.timers = [] ∨ ∃ e ∈ q.timers, e.time ≤ clock q.ticks

/-- Nothing has expired exactly when the first entry lies in the future. -/
theorem expired_eq_nil_iff {q : TimerQueue} (ho : Ordered q) (now : Int) :
    q.expired now = [] ↔ ∀ e ∈ q.timers.head?, now < e.time := by
  unfold expired
  cases hq : q.timers with
  | nil => simp
  | cons x xs =>
    have hx : x.timer.addr < UINTPTR_MAX := ho.addr x (by rw [hq]; exact List.mem_cons_self)
    have hl : x.less now UINTPTR_MAX = true ↔ x.time ≤ now := less_sentry hx
    by_cases hlt : x.time ≤ now
    · simp [hl.mpr hlt, hlt]
    · have hnot : x.less now UINTPTR_MAX = false := Bool.eq_false_iff.mpr (hlt ∘ hl.mp)
      simp [hnot, Int.not_le.mp hlt]

theorem inTime_iff {q : TimerQueue} (ho : Ordered q) :
    InTime clock q ↔ (q.timers = [] ∨ q.expired (clock q.ticks) ≠ []) := by
  unfold InTime
  rw [ne_eq, expired_eq_nil_iff ho]
  refine or_congr Iff.rfl ⟨?_, ?_⟩
  · rintro ⟨e, he, hle⟩ hall
    have hne : q.timers ≠ [] := List.ne_nil_of_mem he
    have hh : q.timers.head hne ∈ q.timers.head? := List.head_mem_head? hne
    have h1 := (head_earliest ho hh).2 e he
    have h2 := hall _ hh
    omega
  · intro hn
    by_contra hc
    refine hn fun e he => ?_
    by_contra hle
    exact hc ⟨e, (head_earliest ho he).1, by omega⟩

/-- A firing that finds nothing expired leaves the set alone and the timerfd disarmed. -/
theorem fire_idle {q : TimerQueue} {adds : Timer → List Timer}
    (h : q.expired (clock q.ticks) = []) :
    fire clock q adds = ⟨q.timers, none, false, q.ticks + 1⟩ := by
  have hdrop : q.timers.dropWhile (·.less (clock q.ticks) UINTPTR_MAX) = q.timers := by
    have happ := List.takeWhile_append_dropWhile (p := (·.less (clock q.ticks) UINTPTR_MAX))
      (l := q.timers)
    rw [show q.timers.takeWhile (·.less (clock q.ticks) UINTPTR_MAX) = [] from h] at happ
    exact happ
  have hes : { q with timerfd := none }.expired (clock q.ticks) = [] := h
  simp only [fire, handleRead, hes, getExpired, hdrop, callExpired, runCallbacks, reset]

/-- A firing with expired timers runs their callbacks and arms for what is left. -/
theorem fire_expired {q : TimerQueue} {adds : Timer → List Timer} (ho : Ordered q)
    (ha : ∀ s, ∀ t ∈ adds s, t.addr < UINTPTR_MAX) :
    Ordered (fire clock q adds) ∧
      (q.expired (clock q.ticks) ≠ [] → HeadArmed (fire clock q adds)) := by
  have haddr : ∀ e ∈ q.expired (clock q.ticks), e.timer.addr < UINTPTR_MAX := fun e he =>
    ho.addr e ((List.takeWhile_sublist _).subset he)
  have hnow : Ordered { q with timerfd := none, ticks := q.ticks + 1 } := ordered_of_timers ho rfl
  have hcall : Ordered (callExpired clock ({ q with timerfd := none, ticks := q.ticks + 1 }.getExpired
      (clock q.ticks)) adds (q.expired (clock q.ticks))) :=
    ordered_callExpired (ordered_getExpired hnow (clock q.ticks)) ha
  obtain ⟨h1, h2⟩ := reset_armed clock hcall haddr
  exact ⟨h1, fun hne => h2 (Or.inr hne)⟩

/-- After a firing the timerfd is armed for the first entry exactly when no timer
was pending or one had expired. -/
theorem fire_armed_iff {q : TimerQueue} {adds : Timer → List Timer} (ho : Ordered q)
    (ha : ∀ s, ∀ t ∈ adds s, t.addr < UINTPTR_MAX) :
    HeadArmed (fire clock q adds) ↔ InTime clock q := by
  rw [inTime_iff ho]
  by_cases hexp : q.expired (clock q.ticks) = []
  · rw [fire_idle hexp]
    constructor
    · intro hh
      refine Or.inl ?_
      by_contra hne
      obtain ⟨a, hnone, -⟩ := hh _ (List.head_mem_head? hne)
      cases hnone
    · rintro (hnil | hne)
      · simp [HeadArmed, hnil]
      · exact absurd hexp hne
  · exact ⟨fun _ => Or.inr hexp, fun _ => (fire_expired ho ha).2 hexp⟩

/-! ## Runs -/

/-- A call of `AddTimerInLoop`, or a firing whose callbacks add timers. -/
inductive TimerStep where
  | addTimerInLoop (t : Timer)
  | fire (adds : Timer → List Timer)

/-- Timers are allocated below the sentry's address; only an armed timerfd fires. -/
def Step (clock : Nat → Int) (q : TimerQueue) : TimerStep → TimerQueue → Prop
  | .addTimerInLoop t, q' => t.addr < UINTPTR_MAX ∧ q' = q.addTimerInLoop clock t
  | .fire adds, q' =>
    q.timerfd ≠ none ∧ (∀ s, ∀ t ∈ adds s, t.addr < UINTPTR_MAX) ∧ q' = fire clock q adds

/-- A firing comes no earlier than the earliest expiration, read on the clock of
`HandleRead`. -/
def FiresInTime (clock : Nat → Int) (q : TimerQueue) : TimerStep → Prop
  | .addTimerInLoop _ => True
  | .fire _ => InTime clock q

theorem step_armed {q q' : TimerQueue} {a : TimerStep} (hq : Ordered q ∧ HeadArmed q)
    (h : Step clock q a q') (ht : FiresInTime clock q a) : Ordered q' ∧ HeadArmed q' := by
  obtain ⟨ho, hh⟩ := hq
  cases a with
  | addTimerInLoop t =>
    obtain ⟨haddr, rfl⟩ := h
    exact ⟨ordered_addTimerInLoop ho haddr, addTimerInLoop_headArmed hh⟩
  | fire adds =>
    obtain ⟨-, ha, rfl⟩ := h
    exact ⟨(fire_expired ho ha).1, (fire_armed_iff ho ha).mpr ht⟩

theorem run_armed {q q' : TimerQueue} {steps : List TimerStep}
    (hr : Run (fun q a q' => Step clock q a q' ∧ FiresInTime clock q a) q steps q')
    (hq : Ordered q ∧ HeadArmed q) : Ordered q' ∧ HeadArmed q' :=
  hr.invariant (P := fun q => Ordered q ∧ HeadArmed q) (fun _ _ _ hs h => step_armed hs h.1 h.2) hq

theorem new_armed : Ordered TimerQueue.new ∧ HeadArmed TimerQueue.new :=
  ⟨⟨List.Pairwise.nil, by simp [TimerQueue.new], by simp [TimerQueue.new]⟩,
    by simp [HeadArmed, TimerQueue.new]⟩

/-- Whatever the clock says: in every run of `AddTimerInLoop` calls and firings in
which no firing comes before the earliest expiration on the clock that its
`HandleRead` reads, the timerfd is armed for the earliest expiration whenever a
timer is pending; and a firing that does come before it leaves it disarmed. -/
theorem armed_while_firings_in_time {q : TimerQueue} {steps : List TimerStep}
    (hr : Run (fun q a q' => Step clock q a q' ∧ FiresInTime clock q a) TimerQueue.new steps q) :
    ArmedForEarliest q ∧
      ∀ adds, ¬InTime clock q → ¬ArmedForEarliest (fire clock q adds) := by
  obtain ⟨ho, hh⟩ := run_armed hr new_armed
  refine ⟨headArmed_earliest ho hh, ?_⟩
  intro adds hlate harmed
  obtain ⟨hne, hexp⟩ := not_or.mp (mt (inTime_iff ho).mpr hlate)
  rw [fire_idle (not_not.mp hexp)] at harmed
  obtain ⟨a, hnone, -⟩ := harmed hne
  cases hnone

/-- A timer due at 1000 fires at 1500 and repeats every half second. -/
theorem armed_after_repeating_timer :
    ArmedForEarliest (fire (fun n => if n = 0 then 0 else 1500)
      (TimerQueue.new.addTimerInLoop (fun n => if n = 0 then 0 else 1500) ⟨1, 1000, ⟨1, -1, by decide⟩⟩)
      fun _ => []) := by
  let clock : Nat → Int := fun n => if n = 0 then 0 else 1500
  have hr : Run (fun q a q' => Step clock q a q' ∧ FiresInTime clock q a) TimerQueue.new
      [.addTimerInLoop ⟨1, 1000, ⟨1, -1, by decide⟩⟩, .fire fun _ => []]
      (fire clock (TimerQueue.new.addTimerInLoop clock ⟨1, 1000, ⟨1, -1, by decide⟩⟩) fun _ => []) := by
    refine .cons ⟨⟨by decide, rfl⟩, trivial⟩ (.single ⟨⟨by decide, by simp, rfl⟩, ?_⟩)
    exact Or.inr ⟨⟨1000, ⟨1, 1000, ⟨1, -1, by decide⟩⟩⟩, by decide, by decide⟩
  exact (armed_while_firings_in_time hr).1

/-- A timer is added for 1000 at time 0; the wall clock is set back, so `HandleRead`
reads 500 when the timerfd fires. The timer stays pending with the timerfd disarmed. -/
theorem disarmed_after_clock_set_back :
    ∃ q, Run (Step fun n => if n = 0 then 0 else 500) TimerQueue.new
        [.addTimerInLoop ⟨1, 1000, ⟨0, 0, by decide⟩⟩, .fire fun _ => []] q ∧
      q.timers = [⟨1000, ⟨1, 1000, ⟨0, 0, by decide⟩⟩⟩] ∧ q.timerfd = none ∧ ¬ArmedForEarliest q := by
  refine ⟨_, .cons ⟨by decide, rfl⟩ (.single ⟨by decide, by simp, rfl⟩), by decide, by decide, ?_⟩
  intro harmed
  obtain ⟨a, hnone, -⟩ := harmed (by decide)
  cases hnone

end RyanNetwork.Timers

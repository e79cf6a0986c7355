import RyanNetwork.Logger.Conservation

/-!
# What `Stop` leaves behind

`Stop` clears `running_` and waits for the backend thread, which tests `running_` only
before its section under the mutex. A backend past the test still takes all records; one
that tests next leaves what `buffers_` and `current_buffer_` hold.
-/
namespace RyanNetwork.Logger

open Lib AsyncLogging

set_option autoImplicit false

variable {SIZE : Nat}

/-- The backend is between its test of `running_` and its section under the mutex. -/
def BeforeSwap (s : AsyncLogging SIZE) : Prop := s.phase = .locking ∨ s.phase = .waiting

/-- The backend will still take all records, or there are none to take. -/
def InTime (s : AsyncLogging SIZE) : Prop := BeforeSwap s ∨ pending s = []

/-! ## A step of the backend -/

/-- How many steps the backend has at most before it finishes, once `running_` is
cleared. -/
def remaining (s : AsyncLogging SIZE) : Nat :=
  match s.phase with
  | .unstarted => 0
  | .finished => 0
  | .testing => 1
  | .recycling => 2
  | .writing k => 3 + (s.buffersToWrite.length - k)
  | .waiting => 5 + s.buffers.length
  | .locking => 6 + s.buffers.length

/-- What the backend does in a step once `running_` is cleared: it takes all records, or
leaves them alone and does not go back before the swap. -/
structure Finishing (s t : AsyncLogging SIZE) : Prop where
  running : t.running = false
  started : t.phase ≠ .unstarted
  fewer : remaining t < remaining s
  taken : BeforeSwap s → BeforeSwap t ∨ pending t = []
  left : ¬BeforeSwap s → ¬BeforeSwap t ∧ pending t = pending s
  empty : pending s = [] → pending t = []

section Backend

variable {s t : AsyncLogging SIZE}

theorem swapBuffers_finishing (h : Stocked s) (hrun : s.running = false) (hp : BeforeSwap s)
    (ht : s.swapBuffers = .ok t) : Finishing s t := by
  obtain ⟨h1, -, hw⟩ := h.idle (Or.inr hp)
  obtain ⟨b, hb⟩ := Option.isSome_iff_exists.mp h1
  obtain ⟨current, hc, ht⟩ := bind_ok ht
  cases ht
  have hnone : payloads s.buffersToWrite ++ payloads s.newBuffer1.toList = [] := by
    rw [hw, hb, Option.toList_some, payloads_singleton]
    exact h.empty b (Or.inr (Or.inl hb))
  refine ⟨hrun, by simp, ?_, fun _ => Or.inr hnone, fun hn => absurd hp hn, fun _ => hnone⟩
  show 3 + ((s.buffers ++ [current]).length - 0) < remaining s
  rw [List.length_append, List.length_singleton]
  unfold remaining
  rcases hp with hp | hp
  · rw [hp]
    dsimp only
    omega
  · rw [hp]
    dsimp only
    omega

/-- A step that leaves the records alone, and does not end before the swap. -/
theorem finishing_of_quiet (hs : ¬BeforeSwap s) (ht : ¬BeforeSwap t) (hrun : t.running = false)
    (hstart : t.phase ≠ .unstarted) (hfew : remaining t < remaining s)
    (hsame : pending t = pending s) : Finishing s t :=
  ⟨hrun, hstart, hfew, fun h => absurd h hs, fun _ => ⟨ht, hsame⟩, fun h => hsame.trans h⟩

theorem backend_finishing (h : Stocked s) (hrun : s.running = false)
    (hstep : AsyncLogging.Step s .backend t) : Finishing s t := by
  obtain ⟨ha, ht⟩ := hstep
  change s.backend = .ok t at ht
  unfold AsyncLogging.backend at ht
  cases hp : s.phase with
  | unstarted => exact absurd hp ha.1
  | finished => exact absurd hp ha.2
  | testing =>
    rw [hp] at ht
    cases ht
    have hfin : s.test.phase = .finished := by
      unfold AsyncLogging.test
      rw [hrun]
      rfl
    apply finishing_of_quiet
    · simp [BeforeSwap, hp]
    · simp [BeforeSwap, hfin]
    · exact hrun
    · simp [hfin]
    · simp [remaining, hfin, hp]
    · rfl
  | locking =>
    rw [hp] at ht
    change s.lock = .ok t at ht
    unfold AsyncLogging.lock at ht
    split at ht
    · cases ht
      refine ⟨hrun, by simp, ?_, fun _ => Or.inl (Or.inr rfl), ?_, id⟩
      · simp [remaining, hp]
      · exact fun hn => absurd (Or.inl hp) hn
    · exact swapBuffers_finishing h hrun (Or.inl hp) ht
  | waiting =>
    rw [hp] at ht
    exact swapBuffers_finishing h hrun (Or.inr hp) ht
  | writing k =>
    rw [hp] at ht
    dsimp only at ht
    split at ht
    · rename_i hk
      obtain ⟨b, -, ht⟩ := bind_ok ht
      cases ht
      apply finishing_of_quiet
      · simp [BeforeSwap, hp]
      · simp [BeforeSwap]
      · exact hrun
      · simp
      · simp only [remaining, hp]
        omega
      · rfl
    · obtain ⟨⟨b, rest⟩, -, ht⟩ := bind_ok ht
      cases ht
      apply finishing_of_quiet
      · simp [BeforeSwap, hp]
      · simp [BeforeSwap]
      · exact hrun
      · simp
      · simp only [remaining, hp]
        omega
      · rfl
  | recycling =>
    rw [hp] at ht
    obtain ⟨⟨b, rest⟩, -, ht⟩ := bind_ok ht
    cases ht
    apply finishing_of_quiet
    · simp [BeforeSwap, hp]
    · simp [BeforeSwap]
    · exact hrun
    · simp
    · simp [remaining, hp]
    · rfl

end Backend

/-! ## From `Stop` to the end of the backend -/

/-- Records that are taken in time stay taken, and records that are not stay where they
are. -/
theorem run_inTime {s u : AsyncLogging SIZE} {steps : List (LogStep SIZE)}
    (hr : Run AsyncLogging.Step s steps u) (hb : ∀ a ∈ steps, a = .backend) (h : Stocked s)
    (hrun : s.running = false) :
    (InTime s → InTime u) ∧ (¬InTime s → ¬BeforeSwap u ∧ pending u = pending s) := by
  induction hr with
  | nil s => exact ⟨id, fun hn => ⟨fun hs => hn (Or.inl hs), rfl⟩⟩
  | @cons s t u a as hstep _ ih =>
    cases hb a List.mem_cons_self
    have hfin := backend_finishing h hrun hstep
    obtain ⟨v, hv, hstocked, -⟩ := perform_keeps h hstep.1
    cases hstep.2.symm.trans hv
    obtain ⟨hin, hout⟩ := ih (fun c hc => hb c (List.mem_cons_of_mem _ hc)) hstocked hfin.running
    constructor
    · intro hs
      apply hin
      rcases hs with hs | hs
      · exact hfin.taken hs
      · exact Or.inr (hfin.empty hs)
    · intro hs
      obtain ⟨hbefore, hsame⟩ := hfin.left fun hbs => hs (Or.inl hbs)
      have hlate : ¬InTime t := by
        intro ht
        rcases ht with ht | ht
        · exact hbefore ht
        · exact hs (Or.inr (hsame.symm.trans ht))
      obtain ⟨hu, hpending⟩ := hout hlate
      exact ⟨hu, hpending.trans hsame⟩

/-- The backend finishes once `running_` is cleared. -/
theorem backend_finishes {s : AsyncLogging SIZE} (h : Stocked s) (hrun : s.running = false)
    (hstart : s.phase ≠ .unstarted) :
    ∃ steps u, (∀ a ∈ steps, a = .backend) ∧ Run AsyncLogging.Step s steps u ∧
      u.phase = .finished := by
  induction hn : remaining s using Nat.strongRecOn generalizing s with
  | _ n ih =>
    by_cases hfin : s.phase = .finished
    · exact ⟨[], s, by simp, .nil s, hfin⟩
    · have ha : s.Enabled .backend := ⟨hstart, hfin⟩
      obtain ⟨t, ht, hstocked, -⟩ := perform_keeps h ha
      have hstep : AsyncLogging.Step s .backend t := ⟨ha, ht⟩
      have hf := backend_finishing h hrun hstep
      obtain ⟨steps, u, hb, hr, hu⟩ :=
        ih (remaining t) (by rw [← hn]; exact hf.fewer) hstocked hf.running hf.started rfl
      refine ⟨.backend :: steps, u, ?_, .cons hstep hr, hu⟩
      intro a hmem
      rcases List.mem_cons.mp hmem with rfl | hmem
      · rfl
      · exact hb a hmem

/-- For every interleaving of `Append`, `Start` and backend steps before `Stop`: `Stop`
returns, and however the backend goes on until then, all records were handed over if and
only if `running_` was cleared while the backend was between its test and its swap, or
while `buffers_` and `current_buffer_` held no record. -/
theorem stop_flushes_iff {s t : AsyncLogging SIZE} {steps : List (LogStep SIZE)}
    (hr : Run AsyncLogging.Step (.new SIZE) steps s) (hstop : AsyncLogging.Step s .stop t) :
    (∃ after u, (∀ a ∈ after, a = .backend) ∧ Run AsyncLogging.Step t after u ∧
      u.phase = .finished) ∧
    ∀ after u, (∀ a ∈ after, a = .backend) → Run AsyncLogging.Step t after u →
      u.phase = .finished →
      ((payloads u.output = steps.flatMap recordOf ∧ pending u = []) ↔ InTime s) := by
  obtain ⟨h, hstream⟩ := run_keeps hr stocked_new
  obtain ⟨hstart, ht⟩ := hstop
  cases ht
  have hstopped : Stocked s.stop := ⟨h.current, h.next, h.spares, h.empty⟩
  refine ⟨backend_finishes hstopped rfl hstart, ?_⟩
  intro after u hb hafter hu
  obtain ⟨hin, hout⟩ := run_inTime hafter hb hstopped rfl
  have hnone : after.flatMap recordOf = [] := by
    rw [List.flatMap_eq_nil_iff]
    intro a ha
    rw [hb a ha]
    rfl
  have hall : stream u = steps.flatMap recordOf := by
    rw [(run_keeps hafter hstopped).2, hnone, List.append_nil]
    rw [stream_new, List.nil_append] at hstream
    exact hstream
  have hsplit : stream u = payloads u.output ++ pending u := by
    unfold stream unhanded
    rw [hu]
    simp [payloads]
  constructor
  · intro hflushed
    by_contra hlate
    have hpending : pending u = pending s := (hout hlate).2
    exact hlate (Or.inr (hpending.symm.trans hflushed.2))
  · intro htime
    have hnil : pending u = [] := by
      rcases hin htime with hbefore | hnil
      · unfold BeforeSwap at hbefore
        rw [hu] at hbefore
        simp at hbefore
      · exact hnil
    rw [hsplit, hnil, List.append_nil] at hall
    exact ⟨hall, hnil⟩

/-- `Stop` while the backend waits for a record. -/
theorem stop_flushes_waiting_backend : ∃ s t : AsyncLogging 4,
    Run AsyncLogging.Step (.new 4) [.start, .backend, .backend, .append [1] (.replicate 4 7)] s ∧
    AsyncLogging.Step s .stop t ∧
    ∀ after u, (∀ a ∈ after, a = .backend) → Run AsyncLogging.Step t after u →
      u.phase = .finished → payloads u.output = [1] ∧ pending u = [] := by
  have hok : ((Run.exec AsyncLogging.Enabled AsyncLogging.perform (.new 4)
      [.start, .backend, .backend, .append [1] (.replicate 4 7)]).map fun s => s.phase) =
      some .waiting := by decide +kernel
  obtain ⟨s, hs, hp⟩ := Option.map_eq_some_iff.mp hok
  have hr := Run.of_exec hs
  have hstop : AsyncLogging.Step s .stop s.stop := ⟨by show s.phase ≠ _; simp [hp], rfl⟩
  refine ⟨s, s.stop, hr, hstop, ?_⟩
  intro after u hb hafter hu
  exact ((stop_flushes_iff hr hstop).2 after u hb hafter hu).mpr (Or.inl (Or.inr hp))

/-- `Stop` before the backend's first test: the record stays in `current_buffer_`. -/
theorem stop_before_first_test : ∃ s t u : AsyncLogging 4,
    Run AsyncLogging.Step (.new 4) [.append [1] (.replicate 4 7), .start] s ∧
    AsyncLogging.Step s .stop t ∧ Run AsyncLogging.Step t [.backend] u ∧
    u.phase = .finished ∧ u.output = [] ∧ pending u = [1] := by
  have hok : ((Run.exec AsyncLogging.Enabled AsyncLogging.perform (.new 4)
      [.append [1] (.replicate 4 7), .start]).map fun s =>
        (s.phase, s.stop.test.phase, s.stop.test.output, pending s.stop.test)) =
      some (.testing, .finished, [], [1]) := by decide +kernel
  obtain ⟨s, hs, hall⟩ := Option.map_eq_some_iff.mp hok
  obtain ⟨hp, hall⟩ := Prod.mk.inj hall
  obtain ⟨hfin, hall⟩ := Prod.mk.inj hall
  obtain ⟨hout, hpending⟩ := Prod.mk.inj hall
  refine ⟨s, s.stop, s.stop.test, Run.of_exec hs, ⟨by show s.phase ≠ _; simp [hp], rfl⟩,
    .single ⟨⟨by show s.phase ≠ _; simp [hp], by show s.phase ≠ _; simp [hp]⟩, ?_⟩, hfin, hout,
    hpending⟩
  show s.stop.backend = _
  unfold AsyncLogging.backend
  rw [show s.stop.phase = .testing from hp]

end RyanNetwork.Logger

import RyanNetwork.Logger.AsyncLogging
import RyanNetwork.Lib.Runs

/-!
# The records of `AsyncLogging` are kept in order

The buffers rotate between `Append` and the backend thread. At every point the payloads
that the log file was given, those still to be handed over, those of `buffers_` and that
of `current_buffer_` are together the records, in the order of the calls; the spare
buffers are empty, and there is always one where one is needed.
-/
namespace RyanNetwork.Logger

open Lib AsyncLogging

set_option autoImplicit false

variable {SIZE : Nat}

def payloads (buffers : List (FixedBuffer SIZE)) : List UInt8 :=
  buffers.flatMap FixedBuffer.payload

/-- The buffers of `buffersToWrite` that were not handed over yet. -/
def unhanded (s : AsyncLogging SIZE) : List (FixedBuffer SIZE) :=
  match s.phase with
  | .writing k => s.buffersToWrite.drop k
  | _ => []

/-- The bytes in `buffers_` and `current_buffer_`. -/
def pending (s : AsyncLogging SIZE) : List UInt8 :=
  payloads s.buffers ++ payloads s.current.toList

/-- All bytes on their way, in order. -/
def stream (s : AsyncLogging SIZE) : List UInt8 :=
  payloads s.output ++ payloads (unhanded s) ++ pending s

/-- The record of a step. -/
def recordOf : LogStep SIZE → List UInt8
  | .append logline _ => logline
  | _ => []

/-- The spare buffers and the vector of the backend, by where it is. -/
def Spares (s : AsyncLogging SIZE) : Prop :=
  match s.phase with
  | .unstarted => s.buffersToWrite = []
  | .testing => s.newBuffer1.isSome ∧ s.newBuffer2.isSome ∧ s.buffersToWrite = []
  | .locking => s.newBuffer1.isSome ∧ s.newBuffer2.isSome ∧ s.buffersToWrite = []
  | .waiting => s.newBuffer1.isSome ∧ s.newBuffer2.isSome ∧ s.buffersToWrite = []
  | .writing _ => s.buffersToWrite ≠ [] ∧ s.newBuffer1 = none ∧
      (s.newBuffer2 = none → 2 ≤ s.buffersToWrite.length)
  | .recycling => s.newBuffer1.isSome ∧ (s.newBuffer2 = none → s.buffersToWrite ≠ [])
  | .finished => s.buffersToWrite = []

/-- `current_buffer_` is there, `next_buffer_` is missing only once a buffer is full, and
the spare buffers are empty. -/
structure Stocked (s : AsyncLogging SIZE) : Prop where
  current : s.current.isSome
  next : s.next = none → s.buffers ≠ []
  spares : Spares s
  empty : ∀ b, s.next = some b ∨ s.newBuffer1 = some b ∨ s.newBuffer2 = some b → b.payload = []

/-- A step that returned, with a record that it added to the stream. -/
def Keeps (s : AsyncLogging SIZE) (x : Except Fault (AsyncLogging SIZE)) (record : List UInt8) :
    Prop :=
  ∃ t, x = .ok t ∧ Stocked t ∧ stream t = stream s ++ record

theorem payloads_append (l m : List (FixedBuffer SIZE)) :
    payloads (l ++ m) = payloads l ++ payloads m := List.flatMap_append

theorem payloads_singleton (b : FixedBuffer SIZE) : payloads [b] = b.payload := by
  simp [payloads]

theorem cleared_payload : (cleared SIZE).payload = [] := by
  simp [cleared, FixedBuffer.bzero, FixedBuffer.payload, FixedBuffer.new]

/-! ## One step -/

section Steps

variable {s : AsyncLogging SIZE}

/-- Between the recycling and the swap, the backend has both spare buffers and an empty
vector. -/
theorem Stocked.idle (h : Stocked s)
    (hp : s.phase = .testing ∨ s.phase = .locking ∨ s.phase = .waiting) :
    s.newBuffer1.isSome ∧ s.newBuffer2.isSome ∧ s.buffersToWrite = [] := by
  have hs := h.spares
  unfold Spares at hs
  rcases hp with hp | hp | hp
  · rw [hp] at hs
    exact hs
  · rw [hp] at hs
    exact hs
  · rw [hp] at hs
    exact hs

theorem Stocked.writing (h : Stocked s) {k : Nat} (hp : s.phase = .writing k) :
    s.buffersToWrite ≠ [] ∧ s.newBuffer1 = none ∧
      (s.newBuffer2 = none → 2 ≤ s.buffersToWrite.length) := by
  have hs := h.spares
  unfold Spares at hs
  rw [hp] at hs
  exact hs

/-- Outside the loop over the vector, nothing of it is left to be handed over. -/
theorem unhanded_nil (hp : ∀ k, s.phase ≠ .writing k) : unhanded s = [] := by
  unfold unhanded
  split
  · rename_i k hk
    exact absurd hk (hp k)
  · rfl

/-- A step that touches no buffer on its way, outside the loop over the vector. -/
theorem stream_eq {t : AsyncLogging SIZE} (hs : unhanded s = []) (ht : unhanded t = [])
    (hout : t.output = s.output) (hpending : pending t = pending s) :
    stream t = stream s ++ [] := by
  unfold stream
  rw [hs, ht, hout, hpending, List.append_nil]

/-- `Append` returns, also for a record too long for a buffer, which is dropped. -/
theorem append_spec (h : Stocked s) (logline : List UInt8) (memory : List.Vector UInt8 SIZE) :
    ∃ t, s.append logline memory = .ok t ∧ Stocked t ∧
      (logline.length < SIZE → stream t = stream s ++ logline) := by
  obtain ⟨current, hc⟩ := Option.isSome_iff_exists.mp h.current
  have hpending : pending s = payloads s.buffers ++ current.payload := by
    unfold pending
    rw [hc]
    simp [payloads]
  by_cases hroom : logline.length < current.avail
  · refine ⟨{ s with current := some (current.append logline) }, ?_, ?_, fun _ => ?_⟩
    · unfold AsyncLogging.append
      rw [hc]
      exact if_pos hroom
    · exact ⟨rfl, h.next, h.spares, h.empty⟩
    · show payloads s.output ++ payloads (unhanded s) ++
        (payloads s.buffers ++ payloads [current.append logline]) = _
      unfold stream
      rw [hpending, payloads_singleton, FixedBuffer.payload_append hroom]
      simp only [List.append_assoc]
  · generalize hf : s.next.getD (.new memory) = fresh
    have hempty : fresh.payload = [] := by
      rw [← hf]
      cases hn : s.next with
      | none => exact FixedBuffer.payload_new memory
      | some b => exact h.empty b (Or.inl hn)
    refine ⟨{ s with
      buffers := s.buffers ++ [current]
      next := none
      current := some (fresh.append logline) }, ?_, ?_, fun hlen => ?_⟩
    · rw [← hf]
      unfold AsyncLogging.append
      rw [hc]
      exact if_neg hroom
    · refine ⟨rfl, by simp, h.spares, ?_⟩
      intro b hb
      exact h.empty b (hb.elim (by simp) Or.inr)
    · have hfits : logline.length < fresh.avail := by
        rw [FixedBuffer.avail_of_payload hempty]
        exact hlen
      show payloads s.output ++ payloads (unhanded s) ++
        (payloads (s.buffers ++ [current]) ++ payloads [fresh.append logline]) = _
      unfold stream
      rw [hpending, payloads_append, payloads_singleton, payloads_singleton,
        FixedBuffer.payload_append hfits, hempty, List.nil_append]
      simp only [List.append_assoc]

theorem append_keeps (h : Stocked s) {logline : List UInt8} (memory : List.Vector UInt8 SIZE)
    (hlen : logline.length < SIZE) : Keeps s (s.append logline memory) logline := by
  obtain ⟨t, ht, hstocked, hstream⟩ := append_spec h logline memory
  exact ⟨t, ht, hstocked, hstream hlen⟩

theorem start_keeps (h : Stocked s) (hp : s.phase = .unstarted) : Keeps s (.ok s.start) [] := by
  have hw : s.buffersToWrite = [] := by
    have hs := h.spares
    unfold Spares at hs
    rw [hp] at hs
    exact hs
  refine ⟨_, rfl, ⟨h.current, h.next, ⟨rfl, rfl, hw⟩, ?_⟩, ?_⟩
  · intro b hb
    rcases hb with hb | hb | hb
    · exact h.empty b (Or.inl hb)
    · rw [← Option.some.inj hb]
      exact cleared_payload
    · rw [← Option.some.inj hb]
      exact cleared_payload
  · exact stream_eq (unhanded_nil (by simp [hp])) rfl rfl rfl

theorem test_keeps (h : Stocked s) (hp : s.phase = .testing) : Keeps s (.ok s.test) [] := by
  have hs := h.idle (Or.inl hp)
  refine ⟨_, rfl, ⟨h.current, h.next, ?_, h.empty⟩, ?_⟩
  · unfold Spares AsyncLogging.test
    cases s.running with
    | true => exact hs
    | false => exact hs.2.2
  · refine stream_eq (unhanded_nil (by simp [hp])) (unhanded_nil ?_) rfl rfl
    unfold AsyncLogging.test
    cases s.running with
    | true => simp
    | false => simp

/-- Before the swap, the backend has both spare buffers and an empty vector. -/
theorem swapBuffers_keeps (h : Stocked s) (h1 : s.newBuffer1.isSome) (h2 : s.newBuffer2.isSome)
    (hw : s.buffersToWrite = []) (hp : unhanded s = []) : Keeps s s.swapBuffers [] := by
  obtain ⟨current, hc⟩ := Option.isSome_iff_exists.mp h.current
  obtain ⟨b1, hb1⟩ := Option.isSome_iff_exists.mp h1
  obtain ⟨b2, hb2⟩ := Option.isSome_iff_exists.mp h2
  have hempty1 := h.empty b1 (Or.inr (Or.inl hb1))
  have hempty2 := h.empty b2 (Or.inr (Or.inr hb2))
  refine ⟨_, by unfold AsyncLogging.swapBuffers; rw [hc]; rfl, ?_, ?_⟩
  · constructor
    · exact h1
    · intro hn
      cases hnext : s.next with
      | none => simp [hnext, hb2] at hn
      | some b => simp [hnext] at hn
    · refine ⟨by simp, rfl, ?_⟩
      intro hn
      cases hnext : s.next with
      | none =>
        have hfull : 0 < s.buffers.length := List.length_pos_iff.mpr (h.next hnext)
        rw [List.length_append, List.length_singleton]
        omega
      | some b => simp [hnext, hb2] at hn
    · intro b hb
      cases hnext : s.next with
      | none =>
        simp only [hnext, hb2, Option.isSome_none, Bool.false_eq_true, ↓reduceIte,
          Option.some.injEq, reduceCtorEq, or_false] at hb
        rw [← hb]
        exact hempty2
      | some d =>
        simp only [hnext, Option.isSome_some, ↓reduceIte, Option.some.injEq, reduceCtorEq,
          false_or] at hb
        rcases hb with rfl | hb
        · exact h.empty d (Or.inl hnext)
        · exact h.empty b (Or.inr (Or.inr hb))
  · show payloads s.output ++ payloads (s.buffers ++ [current]) ++
      (payloads s.buffersToWrite ++ payloads s.newBuffer1.toList) = _
    unfold stream pending
    rw [hw, hp, hb1, hc, payloads_append]
    simp only [Option.toList_some, payloads_singleton, hempty1]
    simp [payloads]

theorem lock_keeps (h : Stocked s) (hp : s.phase = .locking) : Keeps s s.lock [] := by
  have hs := h.idle (Or.inr (Or.inl hp))
  have hnone : unhanded s = [] := unhanded_nil (by simp [hp])
  unfold AsyncLogging.lock
  split
  · exact ⟨_, rfl, ⟨h.current, h.next, hs, h.empty⟩, stream_eq hnone rfl rfl rfl⟩
  · exact swapBuffers_keeps h hs.1 hs.2.1 hs.2.2 hnone

theorem wake_keeps (h : Stocked s) (hp : s.phase = .waiting) : Keeps s s.swapBuffers [] := by
  have hs := h.idle (Or.inr (Or.inr hp))
  exact swapBuffers_keeps h hs.1 hs.2.1 hs.2.2 (unhanded_nil (by simp [hp]))

theorem handOver_keeps (h : Stocked s) {k : Nat} (hp : s.phase = .writing k)
    (hk : k < s.buffersToWrite.length) : Keeps s (s.handOver k) [] := by
  refine ⟨{ s with
    output := s.output ++ [s.buffersToWrite[k]], phase := .writing (k + 1) }, ?_, ?_, ?_⟩
  · unfold AsyncLogging.handOver
    rw [List.getElem?_eq_getElem hk]
    rfl
  · exact ⟨h.current, h.next, h.writing hp, h.empty⟩
  · have hdrop : unhanded s = s.buffersToWrite[k] :: s.buffersToWrite.drop (k + 1) := by
      unfold unhanded
      rw [hp]
      exact List.drop_eq_getElem_cons hk
    show payloads (s.output ++ [s.buffersToWrite[k]]) ++
      payloads (s.buffersToWrite.drop (k + 1)) ++ pending s = _
    unfold stream
    rw [hdrop, payloads_append, payloads_singleton, List.append_nil]
    simp only [payloads, List.flatMap_cons, List.append_assoc]

theorem giveBack_spec (spare : Option (FixedBuffer SIZE)) (buffers : List (FixedBuffer SIZE))
    (hspare : ∀ b, spare = some b → b.payload = []) (h : spare = none → buffers ≠ []) :
    ∃ b, b.payload = [] ∧ giveBack spare buffers =
      .ok (b, if spare.isSome then buffers else buffers.dropLast) := by
  cases spare with
  | some b => exact ⟨b, hspare b rfl, rfl⟩
  | none =>
    refine ⟨(buffers.getLast (h rfl)).reset, FixedBuffer.payload_reset _, ?_⟩
    unfold giveBack
    rw [List.getLast?_eq_some_getLast (h rfl)]
    rfl

theorem recycle1_keeps (h : Stocked s) {k : Nat} (hp : s.phase = .writing k)
    (hk : ¬k < s.buffersToWrite.length) : Keeps s s.recycle1 [] := by
  obtain ⟨hne, h1, h2⟩ := h.writing hp
  have hpos : 0 < s.buffersToWrite.length := List.length_pos_iff.mpr hne
  obtain ⟨b, hb, hg⟩ := giveBack_spec s.newBuffer1
    (s.buffersToWrite.take 2) (fun b hb => h.empty b (Or.inr (Or.inl hb))) (by
      intro _ hnil
      have hlen := congrArg List.length hnil
      rw [List.length_take, List.length_nil] at hlen
      omega)
  rw [h1] at hg
  refine ⟨{ s with
    newBuffer1 := some b
    buffersToWrite := (s.buffersToWrite.take 2).dropLast
    phase := .recycling }, ?_, ⟨h.current, h.next, ⟨rfl, ?_⟩, ?_⟩, ?_⟩
  · unfold AsyncLogging.recycle1
    rw [h1, hg]
    rfl
  · intro hn hnil
    have hlen := congrArg List.length hnil
    have htwo := h2 hn
    rw [List.length_dropLast, List.length_take, List.length_nil] at hlen
    omega
  · intro d hd
    rcases hd with hd | hd | hd
    · exact h.empty d (Or.inl hd)
    · rw [← Option.some.inj hd]
      exact hb
    · exact h.empty d (Or.inr (Or.inr hd))
  · have hnone : unhanded s = [] := by
      unfold unhanded
      rw [hp]
      exact List.drop_eq_nil_of_le (Nat.le_of_not_lt hk)
    exact stream_eq hnone rfl rfl rfl

theorem recycle2_keeps (h : Stocked s) (hp : s.phase = .recycling) : Keeps s s.recycle2 [] := by
  have hs := h.spares
  unfold Spares at hs
  rw [hp] at hs
  obtain ⟨h1, h2⟩ := hs
  obtain ⟨b, hb, hg⟩ := giveBack_spec s.newBuffer2 s.buffersToWrite
    (fun b hb => h.empty b (Or.inr (Or.inr hb))) h2
  refine ⟨{ s with newBuffer2 := some b, buffersToWrite := [], phase := .testing }, ?_,
    ⟨h.current, h.next, ⟨h1, rfl, rfl⟩, ?_⟩, ?_⟩
  · unfold AsyncLogging.recycle2
    rw [hg]
    rfl
  · intro d hd
    rcases hd with hd | hd | hd
    · exact h.empty d (Or.inl hd)
    · exact h.empty d (Or.inr (Or.inl hd))
    · rw [← Option.some.inj hd]
      exact hb
  · exact stream_eq (unhanded_nil (by simp [hp])) rfl rfl rfl

/-- Every step of the backend thread returns. -/
theorem backend_keeps (h : Stocked s) (ha : s.Enabled .backend) : Keeps s s.backend [] := by
  unfold AsyncLogging.backend
  cases hp : s.phase with
  | unstarted => exact absurd hp ha.1
  | testing => exact test_keeps h hp
  | locking => exact lock_keeps h hp
  | waiting => exact wake_keeps h hp
  | writing k =>
    dsimp only
    split
    · rename_i hk
      exact handOver_keeps h hp hk
    · rename_i hk
      exact recycle1_keeps h hp hk
  | recycling => exact recycle2_keeps h hp
  | finished => exact absurd hp ha.2

/-- Every step returns, and adds its record to the stream. -/
theorem perform_keeps (h : Stocked s) {a : LogStep SIZE} (ha : s.Enabled a) :
    Keeps s (s.perform a) (recordOf a) := by
  cases a with
  | append logline memory => exact append_keeps h memory ha
  | start => exact start_keeps h ha
  | backend => exact backend_keeps h ha
  | stop =>
    refine ⟨s.stop, rfl, ⟨h.current, h.next, h.spares, h.empty⟩, ?_⟩
    show stream s = stream s ++ []
    rw [List.append_nil]

end Steps

/-! ## Every interleaving -/

theorem stocked_new : Stocked (AsyncLogging.new SIZE) := by
  refine ⟨rfl, by simp [AsyncLogging.new], rfl, ?_⟩
  intro b hb
  rcases hb with hb | hb | hb
  · rw [← Option.some.inj hb]
    exact cleared_payload
  · cases hb
  · cases hb

theorem stream_new : stream (AsyncLogging.new SIZE) = [] := by
  show payloads [] ++ payloads [] ++ (payloads [] ++ payloads [cleared SIZE]) = []
  rw [payloads_singleton, cleared_payload]
  rfl

/-- Along every run the stream grows by the records of the calls. -/
theorem run_keeps {s t : AsyncLogging SIZE} {steps : List (LogStep SIZE)}
    (hr : Run AsyncLogging.Step s steps t) (h : Stocked s) :
    Stocked t ∧ stream t = stream s ++ steps.flatMap recordOf := by
  induction hr with
  | nil => exact ⟨h, by simp⟩
  | cons hstep _ ih =>
    obtain ⟨v, hv, hstocked, hstream⟩ := perform_keeps h hstep.1
    cases hstep.2.symm.trans hv
    obtain ⟨ht, he⟩ := ih hstocked
    refine ⟨ht, ?_⟩
    rw [he, hstream, List.flatMap_cons, List.append_assoc]

/-- For every interleaving of `Append` calls with the backend's steps, `Start` and `Stop`:
the payloads that were handed over, then those of the buffers not yet handed over, of
`buffers_` and of `current_buffer_` are the records in the order of the calls; the spare
buffers are empty; and no step fails. -/
theorem records_conserved {s : AsyncLogging SIZE} {steps : List (LogStep SIZE)}
    (hr : Run AsyncLogging.Step (.new SIZE) steps s) :
    payloads s.output ++ payloads (unhanded s) ++ (payloads s.buffers ++
        payloads s.current.toList) = steps.flatMap recordOf ∧
      (∀ b, s.next = some b ∨ s.newBuffer1 = some b ∨ s.newBuffer2 = some b → b.payload = []) ∧
      ∀ a, s.Enabled a → ∃ t, s.perform a = .ok t := by
  obtain ⟨h, hstream⟩ := run_keeps hr stocked_new
  rw [stream_new, List.nil_append] at hstream
  refine ⟨hstream, h.empty, ?_⟩
  intro a ha
  obtain ⟨t, ht, -⟩ := perform_keeps h ha
  exact ⟨t, ht⟩

/-- Records before and after the start, with a buffer that fills up. -/
theorem records_conserved_over_swap : ∃ s : AsyncLogging 4,
    Run AsyncLogging.Step (.new 4) [.append [1, 2] (.replicate 4 7), .start,
      .append [3, 4] (.replicate 4 7), .backend, .append [5, 6] (.replicate 4 7), .backend,
      .backend, .append [9] (.replicate 4 7)] s ∧
    s.output.map FixedBuffer.payload = [[1, 2]] ∧
    (unhanded s).map FixedBuffer.payload = [[3, 4], [5, 6]] ∧
    payloads s.output ++ payloads (unhanded s) ++ (payloads s.buffers ++
      payloads s.current.toList) = [1, 2, 3, 4, 5, 6, 9] := by
  have hok : ((Run.exec AsyncLogging.Enabled AsyncLogging.perform (.new 4)
      [.append [1, 2] (.replicate 4 7), .start, .append [3, 4] (.replicate 4 7), .backend,
        .append [5, 6] (.replicate 4 7), .backend, .backend,
        .append [9] (.replicate 4 7)]).map fun s =>
      (s.output.map FixedBuffer.payload, (unhanded s).map FixedBuffer.payload)) =
      some ([[1, 2]], [[3, 4], [5, 6]]) := by decide +kernel
  obtain ⟨s, hs, hpair⟩ := Option.map_eq_some_iff.mp hok
  obtain ⟨hout, hrest⟩ := Prod.mk.inj hpair
  have hr := Run.of_exec hs
  exact ⟨s, hr, hout, hrest, (records_conserved hr).1⟩

end RyanNetwork.Logger

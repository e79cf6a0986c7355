import RyanNetwork.Logger.Conservation

/-!
# The pointers of `AsyncLogging`

The vectors hold `unique_ptr`s. A `push_back(std::move(…))` looks at no buffer, so a null
pointer can get into a vector and is noticed only when it comes out again. Here the
vectors are modelled with the pointers; as long as no pointer is null, these are the steps
of `AsyncLogging`.
-/
namespace RyanNetwork.Logger

open Lib

set_option autoImplicit false

variable {SIZE : Nat}

abbrev BufferPtr (SIZE : Nat) := Option (FixedBuffer SIZE)

structure LogPointers (SIZE : Nat) where
  running : Bool
  current : BufferPtr SIZE
  next : BufferPtr SIZE
  buffers : List (BufferPtr SIZE)
  phase : Phase
  newBuffer1 : BufferPtr SIZE
  newBuffer2 : BufferPtr SIZE
  buffersToWrite : List (BufferPtr SIZE)
  deriving DecidableEq, Repr

namespace LogPointers

def new (SIZE : Nat) : LogPointers SIZE where
  running := false
  current := some (cleared SIZE)
  next := some (cleared SIZE)
  buffers := []
  phase := .unstarted
  newBuffer1 := none
  newBuffer2 := none
  buffersToWrite := []

def append (s : LogPointers SIZE) (logline : List UInt8) (memory : List.Vector UInt8 SIZE) :
    Except Fault (LogPointers SIZE) := do
  let current ← deref s.current
  if logline.length < current.avail then
    return { s with current := some (current.append logline) }
  else
    let buffers := s.buffers ++ [s.current]
    let current ← deref (if s.next.isSome then s.next else some (.new memory))
    return { s with
      buffers := buffers
      next := none
      current := some (current.append logline) }

def start (s : LogPointers SIZE) : LogPointers SIZE :=
  { s with
    running := true
    newBuffer1 := some (cleared SIZE)
    newBuffer2 := some (cleared SIZE)
    phase := .testing }

def test (s : LogPointers SIZE) : LogPointers SIZE :=
  { s with phase := if s.running then .locking else .finished }

/-- The section under the mutex, from the end of the wait on: pointers are moved and the
vectors swapped. -/
def swapBuffers (s : LogPointers SIZE) : LogPointers SIZE :=
  { s with
    buffersToWrite := s.buffers ++ [s.current]
    buffers := s.buffersToWrite
    current := s.newBuffer1
    newBuffer1 := none
    next := if s.next.isSome then s.next else s.newBuffer2
    newBuffer2 := if s.next.isSome then s.newBuffer2 else none
    phase := .writing 0 }

def lock (s : LogPointers SIZE) : LogPointers SIZE :=
  if s.buffers.isEmpty then { s with phase := .waiting } else s.swapBuffers

/-- `buffer->data()` and `buffer->Length()` of entry `k`. -/
def handOver (s : LogPointers SIZE) (k : Nat) : Except Fault (LogPointers SIZE) := do
  let _ ← deref s.buffersToWrite[k]?.join
  return { s with phase := .writing (k + 1) }

/-- A spare that is null is taken from `back()`, and reset through the pointer. -/
def giveBack (spare : BufferPtr SIZE) (buffers : List (BufferPtr SIZE)) :
    Except Fault (FixedBuffer SIZE × List (BufferPtr SIZE)) :=
  match spare with
  | some b => .ok (b, buffers)
  | none =>
    match buffers.getLast? with
    | some back => do
      let b ← deref back
      return (b.reset, buffers.dropLast)
    | none => .error .emptyVector

def recycle1 (s : LogPointers SIZE) : Except Fault (LogPointers SIZE) := do
  let (spare, rest) ← giveBack s.newBuffer1 (s.buffersToWrite.take 2)
  return { s with newBuffer1 := some spare, buffersToWrite := rest, phase := .recycling }

def recycle2 (s : LogPointers SIZE) : Except Fault (LogPointers SIZE) := do
  let (spare, _) ← giveBack s.newBuffer2 s.buffersToWrite
  return { s with newBuffer2 := some spare, buffersToWrite := [], phase := .testing }

def backend (s : LogPointers SIZE) : Except Fault (LogPointers SIZE) :=
  match s.phase with
  | .unstarted => .ok s
  | .testing => .ok s.test
  | .locking => .ok s.lock
  | .waiting => .ok s.swapBuffers
  | .writing k => if k < s.buffersToWrite.length then s.handOver k else s.recycle1
  | .recycling => s.recycle2
  | .finished => .ok s

def perform (s : LogPointers SIZE) : LogStep SIZE → Except Fault (LogPointers SIZE)
  | .append logline memory => s.append logline memory
  | .start => .ok s.start
  | .backend => s.backend
  | .stop => .ok { s with running := false }

/-- The logger is started once, and stopped after it was started. Records may have any
length. -/
def Enabled (s : LogPointers SIZE) : LogStep SIZE → Prop
  | .append _ _ => True
  | .start => s.phase = .unstarted
  | .backend => s.phase ≠ .unstarted ∧ s.phase ≠ .finished
  | .stop => s.phase ≠ .unstarted

instance (s : LogPointers SIZE) (a : LogStep SIZE) : Decidable (s.Enabled a) :=
  match a with
  | .append _ _ => isTrue trivial
  | .start => inferInstanceAs (Decidable (s.phase = .unstarted))
  | .backend => inferInstanceAs (Decidable (s.phase ≠ .unstarted ∧ s.phase ≠ .finished))
  | .stop => inferInstanceAs (Decidable (s.phase ≠ .unstarted))

def Step (s : LogPointers SIZE) (a : LogStep SIZE) (t : LogPointers SIZE) : Prop :=
  s.Enabled a ∧ s.perform a = .ok t

/-! ## Without null pointers in the vectors -/

/-- The state with a pointer to each buffer of the vectors. -/
def ofLogging (s : AsyncLogging SIZE) : LogPointers SIZE where
  running := s.running
  current := s.current
  next := s.next
  buffers := s.buffers.map some
  phase := s.phase
  newBuffer1 := s.newBuffer1
  newBuffer2 := s.newBuffer2
  buffersToWrite := s.buffersToWrite.map some

section Refinement

variable {s t : AsyncLogging SIZE}

theorem append_ofLogging {logline : List UInt8} {memory : List.Vector UInt8 SIZE}
    (h : s.append logline memory = .ok t) :
    (ofLogging s).append logline memory = .ok (ofLogging t) := by
  obtain ⟨current, hc, h⟩ := bind_ok h
  have hcurrent : (ofLogging s).current = some current := deref_ok hc
  have hsame : (ofLogging s).next = s.next := rfl
  have hnext : deref (if (ofLogging s).next.isSome then (ofLogging s).next
      else some (.new memory)) = .ok (s.next.getD (.new memory)) := by
    rw [hsame]
    cases s.next with
    | none => rfl
    | some b => rfl
  unfold append
  rw [hcurrent, deref, ok_bind]
  split at h
  · rename_i hroom
    cases h
    rw [if_pos hroom]
    rfl
  · rename_i hroom
    cases h
    rw [if_neg hroom, hnext, ok_bind]
    dsimp only [ofLogging]
    rw [List.map_append]
    rfl

theorem swapBuffers_ofLogging (h : s.swapBuffers = .ok t) :
    (ofLogging s).swapBuffers = ofLogging t := by
  obtain ⟨current, hc, h⟩ := bind_ok h
  cases h
  unfold swapBuffers ofLogging
  dsimp only
  rw [List.map_append, deref_ok hc]
  rfl

theorem lock_ofLogging (h : s.lock = .ok t) : (ofLogging s).lock = ofLogging t := by
  have hempty : (ofLogging s).buffers.isEmpty = s.buffers.isEmpty := List.isEmpty_map
  unfold AsyncLogging.lock at h
  unfold lock
  rw [hempty]
  split at h
  · rename_i hnil
    cases h
    rw [if_pos hnil]
    rfl
  · rename_i hsome
    rw [if_neg hsome]
    exact swapBuffers_ofLogging h

theorem handOver_ofLogging {k : Nat} (h : s.handOver k = .ok t) :
    (ofLogging s).handOver k = .ok (ofLogging t) := by
  obtain ⟨buffer, hb, h⟩ := bind_ok h
  cases h
  have hentry : (ofLogging s).buffersToWrite[k]?.join = some buffer := by
    unfold ofLogging
    dsimp only
    rw [List.getElem?_map, deref_ok hb]
    rfl
  unfold handOver
  rw [hentry, deref, ok_bind]
  rfl

theorem giveBack_ofLogging {spare : BufferPtr SIZE} {buffers rest : List (FixedBuffer SIZE)}
    {b : FixedBuffer SIZE} (h : AsyncLogging.giveBack spare buffers = .ok (b, rest)) :
    giveBack spare (buffers.map some) = .ok (b, rest.map some) := by
  cases spare with
  | some b' =>
    cases h
    rfl
  | none =>
    unfold AsyncLogging.giveBack at h
    unfold giveBack
    rw [List.getLast?_map]
    cases hlast : buffers.getLast? with
    | none =>
      rw [hlast] at h
      cases h
    | some back =>
      rw [hlast] at h
      cases h
      rw [List.map_dropLast]
      rfl

theorem recycle1_ofLogging (h : s.recycle1 = .ok t) :
    (ofLogging s).recycle1 = .ok (ofLogging t) := by
  obtain ⟨⟨spare, rest⟩, hg, h⟩ := bind_ok h
  cases h
  have hgive := giveBack_ofLogging hg
  rw [List.map_take] at hgive
  unfold recycle1
  dsimp only [ofLogging]
  rw [hgive]
  rfl

theorem recycle2_ofLogging (h : s.recycle2 = .ok t) :
    (ofLogging s).recycle2 = .ok (ofLogging t) := by
  obtain ⟨⟨spare, rest⟩, hg, h⟩ := bind_ok h
  cases h
  have hgive := giveBack_ofLogging hg
  unfold recycle2
  dsimp only [ofLogging]
  rw [hgive]
  rfl

theorem backend_ofLogging (h : s.backend = .ok t) :
    (ofLogging s).backend = .ok (ofLogging t) := by
  have hphase : (ofLogging s).phase = s.phase := rfl
  unfold AsyncLogging.backend at h
  unfold backend
  rw [hphase]
  cases hp : s.phase with
  | unstarted =>
    rw [hp] at h
    cases h
    rfl
  | testing =>
    rw [hp] at h
    cases h
    rfl
  | locking =>
    rw [hp] at h
    exact congrArg Except.ok (lock_ofLogging h)
  | waiting =>
    rw [hp] at h
    exact congrArg Except.ok (swapBuffers_ofLogging h)
  | writing k =>
    rw [hp] at h
    have hlen : (ofLogging s).buffersToWrite.length = s.buffersToWrite.length :=
      List.length_map _
    dsimp only at h ⊢
    rw [hlen]
    split at h
    · rename_i hk
      rw [if_pos hk]
      exact handOver_ofLogging h
    · rename_i hk
      rw [if_neg hk]
      exact recycle1_ofLogging h
  | recycling =>
    rw [hp] at h
    exact recycle2_ofLogging h
  | finished =>
    rw [hp] at h
    cases h
    rfl

/-- A step that returns in `AsyncLogging` is the same step on the pointers. -/
theorem perform_ofLogging {a : LogStep SIZE} (h : s.perform a = .ok t) :
    (ofLogging s).perform a = .ok (ofLogging t) := by
  cases a with
  | append logline memory => exact append_ofLogging h
  | start =>
    cases h
    rfl
  | backend => exact backend_ofLogging h
  | stop =>
    cases h
    rfl

end Refinement

/-- Every step of a stocked logger returns, also with a record too long for a buffer. -/
theorem perform_stocked {s : AsyncLogging SIZE} (h : Stocked s) {a : LogStep SIZE}
    (ha : (ofLogging s).Enabled a) : ∃ t, s.perform a = .ok t ∧ Stocked t := by
  cases a with
  | append logline memory =>
    obtain ⟨t, ht, hstocked, -⟩ := append_spec h logline memory
    exact ⟨t, ht, hstocked⟩
  | start =>
    obtain ⟨t, ht, hstocked, -⟩ := perform_keeps h (a := .start) ha
    exact ⟨t, ht, hstocked⟩
  | backend =>
    obtain ⟨t, ht, hstocked, -⟩ := perform_keeps h (a := .backend) ha
    exact ⟨t, ht, hstocked⟩
  | stop =>
    obtain ⟨t, ht, hstocked, -⟩ := perform_keeps h (a := .stop) ha
    exact ⟨t, ht, hstocked⟩

/-- Every state reached is that of a stocked logger. -/
theorem run_stocked {s : LogPointers SIZE} {steps : List (LogStep SIZE)}
    (hr : Run Step (.new SIZE) steps s) : ∃ u, s = ofLogging u ∧ Stocked u := by
  refine hr.invariant (P := fun s => ∃ u, s = ofLogging u ∧ Stocked u) ?_
    ⟨.new SIZE, rfl, stocked_new⟩
  rintro _ a t ⟨u, rfl, hu⟩ ⟨ha, ht⟩
  obtain ⟨v, hv, hstocked⟩ := perform_stocked hu ha
  rw [perform_ofLogging hv] at ht
  exact ⟨v, (Except.ok.inj ht).symm, hstocked⟩

/-- For every interleaving of `Append` calls with the backend's steps, whenever the mutex is
free: `current_buffer_` is not null; `next_buffer_` is null only if `buffers_` is not empty;
both spares are there at the start of an iteration; no pointer in a vector is null; and the
next step, whichever it is, takes no `back()` of an empty vector and uses no null pointer. -/
theorem buffers_never_run_out {s : LogPointers SIZE} {steps : List (LogStep SIZE)}
    (hr : Run Step (.new SIZE) steps s) :
    s.current.isSome ∧ (s.next = none → s.buffers ≠ []) ∧
      (s.phase = .testing ∨ s.phase = .locking → s.newBuffer1.isSome ∧ s.newBuffer2.isSome) ∧
      (∀ p ∈ s.buffers ++ s.buffersToWrite, p.isSome) ∧
      ∀ a, s.Enabled a → ∃ t, s.perform a = .ok t := by
  obtain ⟨u, rfl, hu⟩ := run_stocked hr
  refine ⟨hu.current, ?_, ?_, ?_, ?_⟩
  · intro hnext hnil
    exact hu.next hnext (List.map_eq_nil_iff.mp hnil)
  · intro hphase
    obtain ⟨h1, h2, -⟩ := hu.idle (hphase.imp_right Or.inl)
    exact ⟨h1, h2⟩
  · intro p hp
    rcases List.mem_append.mp hp with hmem | hmem
    · obtain ⟨b, -, rfl⟩ := List.mem_map.mp hmem
      rfl
    · obtain ⟨b, -, rfl⟩ := List.mem_map.mp hmem
      rfl
  · intro a ha
    obtain ⟨v, hv, -⟩ := perform_stocked hu ha
    exact ⟨_, perform_ofLogging hv⟩

/-- An iteration in which both spares are given away, and the recycling that follows. -/
theorem buffers_never_run_out_recycled : ∃ s : LogPointers 4,
    Run Step (.new 4) [.start, .append [1, 2, 3] (.replicate 4 7),
      .append [4, 5, 6, 7, 8] (.replicate 4 7), .backend, .backend, .backend, .backend,
      .backend] s ∧
    s.phase = .recycling ∧ s.newBuffer2 = none ∧ s.buffersToWrite.length = 1 ∧
    ∀ p ∈ s.buffers ++ s.buffersToWrite, p.isSome := by
  have hok : ((Run.exec Enabled perform (.new 4) [.start, .append [1, 2, 3] (.replicate 4 7),
      .append [4, 5, 6, 7, 8] (.replicate 4 7), .backend, .backend, .backend, .backend,
      .backend]).map fun s => (s.phase, s.newBuffer2, s.buffersToWrite.length)) =
      some (.recycling, none, 1) := by decide +kernel
  obtain ⟨s, hs, htriple⟩ := Option.map_eq_some_iff.mp hok
  obtain ⟨hphase, hpair⟩ := Prod.mk.inj htriple
  obtain ⟨hspare, hlen⟩ := Prod.mk.inj hpair
  have hr := Run.of_exec hs
  exact ⟨s, hr, hphase, hspare, hlen, (buffers_never_run_out hr).2.2.2.1⟩

end LogPointers

end RyanNetwork.Logger

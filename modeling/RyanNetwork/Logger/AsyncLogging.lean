import RyanNetwork.Buffer.FixedBuffer
import RyanNetwork.Lib.Outcome

/-!
# `AsyncLogging`

`Append` fills `current_buffer_` under the mutex; the backend thread takes the full
buffers, hands them to the log file outside the mutex and gives two of them back. The
steps are the sections between which the threads can interleave: a call of `Append`, the
backend's test of `running_`, its section under the mutex (in two parts if it waits on the
condition), the hand-over of one buffer, and the two parts of the recycling. A null
`unique_ptr` is `none`.
-/
namespace RyanNetwork.Logger

open Lib

set_option autoImplicit false

variable {SIZE : Nat}

/-- `deref`: a null buffer is used. `emptyVector`: `back()` of an empty vector. -/
inductive Fault where
  | deref
  | emptyVector
  deriving DecidableEq, Repr

/-- Where the backend thread is; `writing k`: it has handed over `k` buffers. -/
inductive Phase where
  | unstarted
  | testing
  | locking
  | waiting
  | writing (k : Nat)
  | recycling
  | finished
  deriving DecidableEq, Repr

/-- `output` are the buffers that the log file was given, as they were then. -/
structure AsyncLogging (SIZE : Nat) where
  running : Bool
  current : Option (FixedBuffer SIZE)
  next : Option (FixedBuffer SIZE)
  buffers : List (FixedBuffer SIZE)
  phase : Phase
  newBuffer1 : Option (FixedBuffer SIZE)
  newBuffer2 : Option (FixedBuffer SIZE)
  buffersToWrite : List (FixedBuffer SIZE)
  output : List (FixedBuffer SIZE)
  deriving DecidableEq, Repr

/-- A buffer that was just allocated and cleared. -/
def cleared (SIZE : Nat) : FixedBuffer SIZE :=
  (FixedBuffer.new (List.Vector.replicate SIZE 0)).bzero

/-- The buffer behind a pointer. -/
def deref : Option (FixedBuffer SIZE) → Except Fault (FixedBuffer SIZE)
  | some b => .ok b
  | none => .error .deref

theorem deref_ok {p : Option (FixedBuffer SIZE)} {b : FixedBuffer SIZE} (h : deref p = .ok b) :
    p = some b := by
  cases p with
  | none => cases h
  | some c => exact congrArg some (Except.ok.inj h)

namespace AsyncLogging

def new (SIZE : Nat) : AsyncLogging SIZE where
  running := false
  current := some (cleared SIZE)
  next := some (cleared SIZE)
  buffers := []
  phase := .unstarted
  newBuffer1 := none
  newBuffer2 := none
  buffersToWrite := []
  output := []

/-- `Append`; `memory` is what a buffer holds that it has to allocate. -/
def append (s : AsyncLogging SIZE) (logline : List UInt8) (memory : List.Vector UInt8 SIZE) :
    Except Fault (AsyncLogging SIZE) := do
  let current ← deref s.current
  if logline.length < current.avail then
    return { s with current := some (current.append logline) }
  else
    let fresh := s.next.getD (.new memory)
    return { s with
      buffers := s.buffers ++ [current]
      next := none
      current := some (fresh.append logline) }

/-- `Start` up to the backend's first test of `running_`. -/
def start (s : AsyncLogging SIZE) : AsyncLogging SIZE :=
  { s with
    running := true
    newBuffer1 := some (cleared SIZE)
    newBuffer2 := some (cleared SIZE)
    phase := .testing }

/-- `while (running_)`. -/
def test (s : AsyncLogging SIZE) : AsyncLogging SIZE :=
  { s with phase := if s.running then .locking else .finished }

/-- The section under the mutex, from the end of the wait on. -/
def swapBuffers (s : AsyncLogging SIZE) : Except Fault (AsyncLogging SIZE) := do
  let current ← deref s.current
  return { s with
    buffersToWrite := s.buffers ++ [current]
    buffers := s.buffersToWrite
    current := s.newBuffer1
    newBuffer1 := none
    next := if s.next.isSome then s.next else s.newBuffer2
    newBuffer2 := if s.next.isSome then s.newBuffer2 else none
    phase := .writing 0 }

/-- The section under the mutex up to the wait. -/
def lock (s : AsyncLogging SIZE) : Except Fault (AsyncLogging SIZE) :=
  if s.buffers.isEmpty then .ok { s with phase := .waiting } else s.swapBuffers

/-- `output.Append(buffer->data(), buffer->Length())`. -/
def handOver (s : AsyncLogging SIZE) (k : Nat) : Except Fault (AsyncLogging SIZE) := do
  let buffer ← deref s.buffersToWrite[k]?
  return { s with output := s.output ++ [buffer], phase := .writing (k + 1) }

/-- A spare buffer that is missing is taken from the back of the vector. -/
def giveBack (spare : Option (FixedBuffer SIZE)) (buffers : List (FixedBuffer SIZE)) :
    Except Fault (FixedBuffer SIZE × List (FixedBuffer SIZE)) :=
  match spare with
  | some b => .ok (b, buffers)
  | none =>
    match buffers.getLast? with
    | some b => .ok (b.reset, buffers.dropLast)
    | none => .error .emptyVector

/-- Two buffers are kept, and `new_buffer1` is given back. -/
def recycle1 (s : AsyncLogging SIZE) : Except Fault (AsyncLogging SIZE) := do
  let (spare, rest) ← giveBack s.newBuffer1 (s.buffersToWrite.take 2)
  return { s with newBuffer1 := some spare, buffersToWrite := rest, phase := .recycling }

/-- `new_buffer2` is given back, and the vector cleared. -/
def recycle2 (s : AsyncLogging SIZE) : Except Fault (AsyncLogging SIZE) := do
  let (spare, _) ← giveBack s.newBuffer2 s.buffersToWrite
  return { s with newBuffer2 := some spare, buffersToWrite := [], phase := .testing }

/-- `Stop` up to `thread_.Join()`, which returns when the backend has finished. -/
def stop (s : AsyncLogging SIZE) : AsyncLogging SIZE := { s with running := false }

end AsyncLogging

/-- A step of some thread. `backend` is the next step of the backend thread, which for a
wait is its end: notified, timed out or spurious. -/
inductive LogStep (SIZE : Nat) where
  | append (logline : List UInt8) (memory : List.Vector UInt8 SIZE)
  | start
  | backend
  | stop

namespace AsyncLogging

/-- The next step of the backend thread. -/
def backend (s : AsyncLogging SIZE) : Except Fault (AsyncLogging SIZE) :=
  match s.phase with
  | .unstarted => .ok s
  | .testing => .ok s.test
  | .locking => s.lock
  | .waiting => s.swapBuffers
  | .writing k => if k < s.buffersToWrite.length then s.handOver k else s.recycle1
  | .recycling => s.recycle2
  | .finished => .ok s

def perform (s : AsyncLogging SIZE) : LogStep SIZE → Except Fault (AsyncLogging SIZE)
  | .append logline memory => s.append logline memory
  | .start => .ok s.start
  | .backend => s.backend
  | .stop => .ok s.stop

/-- Records are shorter than a buffer, the logger is started once, and stopped after it
was started. -/
def Enabled (s : AsyncLogging SIZE) : LogStep SIZE → Prop
  | .append logline _ => logline.length < SIZE
  | .start => s.phase = .unstarted
  | .backend => s.phase ≠ .unstarted ∧ s.phase ≠ .finished
  | .stop => s.phase ≠ .unstarted

instance (s : AsyncLogging SIZE) (a : LogStep SIZE) : Decidable (s.Enabled a) :=
  match a with
  | .append logline _ => inferInstanceAs (Decidable (logline.length < SIZE))
  | .start => inferInstanceAs (Decidable (s.phase = .unstarted))
  | .backend => inferInstanceAs (Decidable (s.phase ≠ .unstarted ∧ s.phase ≠ .finished))
  | .stop => inferInstanceAs (Decidable (s.phase ≠ .unstarted))

def Step (s : AsyncLogging SIZE) (a : LogStep SIZE) (t : AsyncLogging SIZE) : Prop :=
  s.Enabled a ∧ s.perform a = .ok t

end AsyncLogging

end RyanNetwork.Logger

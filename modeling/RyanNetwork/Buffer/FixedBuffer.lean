import Mathlib.Data.List.Basic
import Mathlib.Data.Vector.Defs
import RyanNetwork.Lib.Runs

/-!
# `FixedBuffer`

An array of `SIZE` bytes and the position behind the last byte appended. The bounds of
the position are part of the type.
-/
namespace RyanNetwork

set_option autoImplicit false

structure FixedBuffer (SIZE : Nat) where
  data : List UInt8
  curr : Nat
  size_eq : data.length = SIZE
  curr_le : curr ≤ SIZE
  deriving DecidableEq, Repr

namespace FixedBuffer

variable {SIZE : Nat}

/-- `FixedBuffer()` on memory that it does not initialise. -/
def new (memory : List.Vector UInt8 SIZE) : FixedBuffer SIZE :=
  ⟨memory.1, 0, memory.2, Nat.zero_le _⟩

/-- `Length()`: the distance from `data_` to the end of the array. -/
def length (_ : FixedBuffer SIZE) : Nat := SIZE

def avail (b : FixedBuffer SIZE) : Nat := SIZE - b.curr

/-- `Append`, which drops what does not fit. -/
def append (b : FixedBuffer SIZE) (buf : List UInt8) : FixedBuffer SIZE :=
  if h : buf.length < b.avail then
    ⟨b.data.take b.curr ++ buf ++ b.data.drop (b.curr + buf.length), b.curr + buf.length,
      by
        have hsize := b.size_eq
        have hcurr := b.curr_le
        unfold avail at h
        simp only [List.length_append, List.length_take, List.length_drop]
        omega,
      by
        unfold avail at h
        omega⟩
  else b

def reset (b : FixedBuffer SIZE) : FixedBuffer SIZE := ⟨b.data, 0, b.size_eq, Nat.zero_le _⟩

def bzero (b : FixedBuffer SIZE) : FixedBuffer SIZE :=
  ⟨List.replicate SIZE 0, b.curr, List.length_replicate, b.curr_le⟩

/-- The bytes appended since the last `Reset`. -/
def payload (b : FixedBuffer SIZE) : List UInt8 := b.data.take b.curr

@[simp] theorem payload_new (memory : List.Vector UInt8 SIZE) : (new memory).payload = [] := rfl

@[simp] theorem payload_reset (b : FixedBuffer SIZE) : b.reset.payload = [] := rfl

theorem payload_length (b : FixedBuffer SIZE) : b.payload.length = b.curr := by
  have hsize := b.size_eq
  have hcurr := b.curr_le
  unfold payload
  rw [List.length_take]
  omega

theorem payload_append {b : FixedBuffer SIZE} {buf : List UInt8} (h : buf.length < b.avail) :
    (b.append buf).payload = b.payload ++ buf := by
  have hsize := b.size_eq
  have hcurr := b.curr_le
  have hlen := payload_length b
  unfold append
  rw [dif_pos h]
  unfold payload at hlen ⊢
  apply List.take_left'
  rw [List.length_append, hlen]

/-- An empty buffer has room for everything shorter than it. -/
theorem avail_of_payload {b : FixedBuffer SIZE} (h : b.payload = []) : b.avail = SIZE := by
  have hlen := payload_length b
  rw [h] at hlen
  unfold avail
  rw [← hlen]
  rfl

/-! ## Whole sequences of operations -/

/-- Bytes written through `Current()`; `none` past the end of the array. -/
def store (b : FixedBuffer SIZE) (bytes : List UInt8) : Option (FixedBuffer SIZE) :=
  if h : bytes.length ≤ b.avail then
    some ⟨b.data.take b.curr ++ bytes ++ b.data.drop (b.curr + bytes.length), b.curr,
      by
        have hsize := b.size_eq
        have hcurr := b.curr_le
        unfold avail at h
        simp only [List.length_append, List.length_take, List.length_drop]
        omega,
      b.curr_le⟩
  else none

/-- `Add`; `none` past the end of the array. -/
def add (b : FixedBuffer SIZE) (len : Nat) : Option (FixedBuffer SIZE) :=
  if h : len ≤ b.avail then
    some ⟨b.data, b.curr + len, b.size_eq,
      by
        have hcurr := b.curr_le
        unfold avail at h
        omega⟩
  else none

/-- `ToString()`: the first `Length()` bytes of the array. -/
def toString (b : FixedBuffer SIZE) : List UInt8 := b.data.take b.length

inductive Operation where
  | append (buf : List UInt8)
  | store (bytes : List UInt8)
  | add (len : Nat)
  | reset
  deriving DecidableEq, Repr

/-- `none` if the operation leaves the array. -/
def perform (b : FixedBuffer SIZE) : Operation → Option (FixedBuffer SIZE)
  | .append buf => some (b.append buf)
  | .store bytes => b.store bytes
  | .add len => b.add len
  | .reset => some b.reset

/-- The bytes accepted since the last `Reset`, of which `accepted` were before the
operation. `Add` accepts what stands at `Current()`. -/
def accept (b : FixedBuffer SIZE) (accepted : List UInt8) : Operation → List UInt8
  | .append buf => if buf.length < b.avail then accepted ++ buf else accepted
  | .store _ => accepted
  | .add len => accepted ++ (b.data.drop b.curr).take len
  | .reset => []

/-- An operation within the array, beside the bytes accepted since the last `Reset`. -/
def Step (s : FixedBuffer SIZE × List UInt8) (op : Operation)
    (t : FixedBuffer SIZE × List UInt8) : Prop :=
  s.1.perform op = some t.1 ∧ t.2 = s.1.accept s.2 op

theorem payload_store {b b' : FixedBuffer SIZE} {bytes : List UInt8}
    (h : b.store bytes = some b') : b'.payload = b.payload := by
  have hlen := payload_length b
  unfold store at h
  split at h
  · cases h
    unfold payload at hlen ⊢
    dsimp only
    rw [List.append_assoc]
    exact List.take_left' hlen
  · cases h

theorem payload_add {b b' : FixedBuffer SIZE} {len : Nat} (h : b.add len = some b') :
    b'.payload = b.payload ++ (b.data.drop b.curr).take len := by
  unfold add at h
  split at h
  · cases h
    exact List.take_add
  · cases h

theorem step_payload {s t : FixedBuffer SIZE × List UInt8} {op : Operation}
    (hs : s.1.payload = s.2) (h : Step s op t) : t.1.payload = t.2 := by
  obtain ⟨hp, ht⟩ := h
  rw [ht, ← hs]
  cases op with
  | append buf =>
    rw [← Option.some.inj hp]
    simp only [accept]
    split
    · rename_i hfit
      exact payload_append hfit
    · rename_i hfull
      rw [append, dif_neg hfull]
  | store bytes => exact payload_store hp
  | add len => exact payload_add hp
  | reset =>
    rw [← Option.some.inj hp]
    rfl

/-- The bytes before `curr_` are those accepted since the last `Reset`. -/
theorem run_payload {memory : List.Vector UInt8 SIZE} {ops : List Operation}
    {b : FixedBuffer SIZE} {accepted : List UInt8}
    (h : Lib.Run Step (new memory, []) ops (b, accepted)) : b.payload = accepted :=
  h.invariant (P := fun s => s.1.payload = s.2) (fun _ _ _ => step_payload) (payload_new memory)

/-- What was written through `Current()` stands there. -/
theorem store_at_current {b b' : FixedBuffer SIZE} {text rest : List UInt8}
    (h : b.store (text ++ rest) = some b') :
    b'.curr = b.curr ∧ (b'.data.drop b'.curr).take text.length = text := by
  have hlen := payload_length b
  unfold payload at hlen
  unfold store at h
  split at h
  · cases h
    refine ⟨rfl, ?_⟩
    dsimp only
    rw [List.append_assoc, List.drop_left' hlen, List.append_assoc]
    exact List.take_left' rfl
  · cases h

/-- What fits can be written, which takes no room yet. -/
theorem store_of_room {b : FixedBuffer SIZE} {bytes : List UInt8} (h : bytes.length ≤ b.avail) :
    ∃ b', b.store bytes = some b' ∧ b'.avail = b.avail := by
  unfold store
  rw [dif_pos h]
  exact ⟨_, rfl, rfl⟩

theorem add_of_room {b : FixedBuffer SIZE} {len : Nat} (h : len ≤ b.avail) :
    ∃ b', b.add len = some b' := by
  unfold add
  rw [dif_pos h]
  exact ⟨_, rfl⟩

theorem avail_add {b b' : FixedBuffer SIZE} {len : Nat} (h : b.add len = some b') :
    b'.avail = b.avail - len := by
  unfold add at h
  split at h
  · cases h
    simp only [avail]
    omega
  · cases h

/-- `Append` leaves at least one byte free. -/
theorem avail_append_ne {b : FixedBuffer SIZE} {buf : List UInt8} (h : b.avail ≠ 0) :
    (b.append buf).avail ≠ 0 := by
  unfold append
  split
  · rename_i hroom
    unfold avail at hroom ⊢
    dsimp only
    omega
  · exact h

/-- `ToString()` is the whole array, so it goes on behind the bytes accepted. -/
theorem toString_eq (b : FixedBuffer SIZE) : b.toString = b.payload ++ b.data.drop b.curr := by
  have hall : b.toString = b.data := List.take_of_length_le (Nat.le_of_eq b.size_eq)
  rw [hall]
  exact (List.take_append_drop b.curr b.data).symm

theorem toString_eq_payload_iff (b : FixedBuffer SIZE) :
    b.toString = b.payload ↔ b.avail = 0 := by
  have hsize := b.size_eq
  have hcurr := b.curr_le
  unfold avail
  rw [toString_eq, List.append_right_eq_self, List.drop_eq_nil_iff]
  omega

/-- `Length()` counts the bytes accepted, and `ToString()` is made of them. -/
structure Exact (b : FixedBuffer SIZE) (accepted : List UInt8) : Prop where
  length_eq : b.length = accepted.length
  length_add_avail : b.length + b.avail = SIZE
  toString_eq : b.toString = accepted

theorem exact_payload_iff (b : FixedBuffer SIZE) : b.Exact b.payload ↔ b.avail = 0 := by
  constructor
  · intro h
    exact (toString_eq_payload_iff b).mp h.toString_eq
  · intro h
    have hcurr := b.curr_le
    refine ⟨?_, ?_, (toString_eq_payload_iff b).mpr h⟩
    · rw [payload_length, length]
      unfold avail at h
      omega
    · rw [h, length]
      omega

end FixedBuffer

end RyanNetwork

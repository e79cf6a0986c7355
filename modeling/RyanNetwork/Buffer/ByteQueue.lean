import Mathlib.Logic.Function.Basic
import RyanNetwork.Lib.Runs
import RyanNetwork.Buffer.Content

/-!
# `Buffer` is a byte queue

A family of buffers, each made by its constructor, is driven by any finite
sequence of calls, `Swap` between two members included. Abstractly a buffer is
the list of its unread bytes. The refinement holds exactly when the sum in the
constructor does not wrap; a wrapped one leaves the indices beyond the vector.
-/
namespace RyanNetwork.Buffer.ByteQueue

open Lib

set_option autoImplicit false

/-- The calls that concern one buffer. -/
inductive Op where
  | append (data : List UInt8)
  | appendInt8 (x : BitVec 8)
  | appendInt16 (x : BitVec 16)
  | appendInt32 (x : BitVec 32)
  | appendInt64 (x : BitVec 64)
  | retrieve (len : Nat)
  | retrieveUntil (offset : Nat)
  | retrieveAll
  | retrieveAsString (len : Nat)
  | prepend (data : List UInt8)
  | ensureWritableBytes (len : Nat)
  | shrink (reserve : Nat)

namespace Op

def apply (b : Buffer) : Op → Except Fault Buffer
  | .append data => b.append data
  | .appendInt8 x => b.appendInt8 x
  | .appendInt16 x => b.appendInt16 x
  | .appendInt32 x => b.appendInt32 x
  | .appendInt64 x => b.appendInt64 x
  | .retrieve len => .ok (b.retrieve len)
  | .retrieveUntil offset => .ok (b.retrieveUntil offset)
  | .retrieveAll => .ok b.retrieveAll
  | .retrieveAsString len => do return (← b.retrieveAsString len).2
  | .prepend data => b.prepend data
  | .ensureWritableBytes len => b.ensureWritableBytes len
  | .shrink reserve => b.shrink reserve

/-- What the caller keeps to: lengths that fit an `int`, pointers and counts
inside the readable region, a prefix that fits the room before it. -/
def Allowed (b : Buffer) : Op → Prop
  | .append data => data.length < 2 ^ 31
  | .retrieveUntil offset => offset ≤ b.readableBytes
  | .retrieveAsString len => len ≤ b.readableBytes
  | .prepend data => data.length ≤ b.prependableBytes
  | .ensureWritableBytes len => len < 2 ^ 31
  | .shrink reserve => b.readableBytes + reserve < 2 ^ 31
  | _ => True

/-- The same call on a plain queue of bytes. -/
def onQueue (q : List UInt8) : Op → List UInt8
  | .append data => q ++ data
  | .appendInt8 x => q ++ beBytes 1 x.toNat
  | .appendInt16 x => q ++ beBytes 2 x.toNat
  | .appendInt32 x => q ++ beBytes 4 x.toNat
  | .appendInt64 x => q ++ beBytes 8 x.toNat
  | .retrieve len => q.drop (min len q.length)
  | .retrieveUntil offset => q.drop offset
  | .retrieveAll => []
  | .retrieveAsString len => q.drop len
  | .prepend data => data ++ q
  | .ensureWritableBytes _ => q
  | .shrink _ => q

/-- Every allowed call keeps a valid buffer valid and acts on its content as on
the queue, or throws `length_error`. -/
theorem apply_spec {b : Buffer} (h : b.Valid) (op : Op) (ha : op.Allowed b) :
    Outcome (op.apply b) (fun c => c.Valid ∧ c.content = op.onQueue b.content)
      (· = .lengthError) := by
  cases op with
  | append data => exact append_spec h ha
  | appendInt8 x => exact appendInt_spec (n := 1) h (by decide) x
  | appendInt16 x => exact appendInt_spec (n := 2) h (by decide) x
  | appendInt32 x => exact appendInt_spec (n := 4) h (by decide) x
  | appendInt64 x => exact appendInt_spec (n := 8) h (by decide) x
  | retrieve len =>
    obtain ⟨hv, hc⟩ := retrieve_spec h len
    refine Outcome.ok ⟨hv, ?_⟩
    rw [hc, onQueue]
    rcases Nat.le_total len b.content.length with hle | hle
    · rw [Nat.min_eq_left hle]
    · rw [Nat.min_eq_right hle, List.drop_length, List.drop_eq_nil_of_le hle]
  | retrieveUntil offset => exact Outcome.ok (retrieve_spec h offset)
  | retrieveAll => exact Outcome.ok (retrieveAll_spec h)
  | retrieveAsString len =>
    simp only [apply, retrieveAsString_spec h ha]
    exact Outcome.ok_bind (Outcome.ok (retrieve_spec h len))
  | prepend data => exact prepend_spec h ha
  | ensureWritableBytes len =>
    have hs := ensureWritableBytes_spec h ha
    exact ⟨fun he => ⟨(hs.of_ok he).1, (hs.of_ok he).2.1⟩, hs.of_error⟩
  | shrink reserve => exact shrink_spec h ha

end Op

section Family

variable {ι : Type}

/-- The refinement relation between a family of buffers and a family of queues. -/
def Refines (bs : ι → Buffer) (qs : ι → List UInt8) : Prop :=
  ∀ i, (bs i).Valid ∧ (bs i).content = qs i

/-- What a byte queue promises of every buffer of a family whose abstract queues
are `qs`. -/
structure IsQueue (bs : ι → Buffer) (qs : ι → List UInt8) : Prop where
  ordered : ∀ i, (bs i).readerIndex ≤ (bs i).writerIndex ∧
    (bs i).writerIndex ≤ (bs i).buffer.length
  content : ∀ i, (bs i).content = qs i
  strings : ∀ i len, len ≤ (bs i).readableBytes →
    ∃ c, (bs i).retrieveAsString len = .ok ((qs i).take len, c)
  compaction : ∀ i len, len < 2 ^ 31 → (bs i).writableBytes < len →
    (bs i).needsResize (SizeT.toInt len) = false → kCheapPrepend < (bs i).readerIndex
  faults : ∀ i op e, Op.Allowed (bs i) op → op.apply (bs i) = .error e → e = .lengthError

theorem Refines.isQueue {bs : ι → Buffer} {qs : ι → List UInt8} (h : Refines bs qs) :
    IsQueue bs qs where
  ordered i := ⟨(h i).1.ordered, (h i).1.bounded⟩
  content i := (h i).2
  strings i len hl := ⟨_, by rw [← (h i).2]; exact retrieveAsString_spec (h i).1 hl⟩
  compaction i _ hl hw hc := compaction_moves_down (h i).1 hl hw hc
  faults i op _ ha he := (op.apply_spec (h i).1 ha).of_error he

variable [DecidableEq ι]

inductive Action (ι : Type) where
  | on (i : ι) (op : Op)
  | swap (i j : ι)

/-- One call on a family of buffers. A call that throws is not a step. -/
def Step (bs : ι → Buffer) : Action ι → (ι → Buffer) → Prop
  | .on i op, cs => op.Allowed (bs i) ∧ ∃ c, op.apply (bs i) = .ok c ∧ cs = Function.update bs i c
  | .swap i j, cs =>
    cs = Function.update (Function.update bs i ((bs i).swap (bs j)).1) j ((bs i).swap (bs j)).2

def Action.onQueues (qs : ι → List UInt8) : Action ι → ι → List UInt8
  | .on i op => Function.update qs i (op.onQueue (qs i))
  | .swap i j => Function.update (Function.update qs i (qs j)) j (qs i)

theorem Refines.update {bs : ι → Buffer} {qs : ι → List UInt8} (h : Refines bs qs) (i : ι)
    {c : Buffer} {q : List UInt8} (hc : c.Valid ∧ c.content = q) :
    Refines (Function.update bs i c) (Function.update qs i q) := by
  intro j
  by_cases hj : j = i
  · subst hj
    simpa using hc
  · simpa [Function.update_of_ne hj] using h j

theorem step_refines {bs cs : ι → Buffer} {qs : ι → List UInt8} (h : Refines bs qs)
    {a : Action ι} (hs : Step bs a cs) : Refines cs (a.onQueues qs) := by
  cases a with
  | on i op =>
    obtain ⟨ha, c, hc, rfl⟩ := hs
    have hspec := (op.apply_spec (h i).1 ha).of_ok hc
    rw [(h i).2] at hspec
    exact h.update i hspec
  | swap i j =>
    cases hs
    exact (h.update i (h j)).update j (h i)

/-- A run of calls refines the same calls on the queues. -/
theorem run_refines {bs cs : ι → Buffer} {acts : List (Action ι)} (hr : Run Step bs acts cs) :
    ∀ qs, Refines bs qs → Refines cs (acts.foldl Action.onQueues qs) := by
  induction hr with
  | nil => exact fun qs h => h
  | cons hs _ ih => exact fun qs h => ih _ (step_refines h hs)

/-- The vector of a wrapped constructor is shorter than the reserved header. -/
theorem new_wrapped {initialSize : Nat} {b : Buffer} (hs : initialSize < 2 ^ 64)
    (hw : ¬ kCheapPrepend + initialSize < 2 ^ 64) (h : new initialSize = .ok b) :
    b.buffer.length < b.writerIndex := by
  obtain ⟨v, hv, hb⟩ := bind_ok h
  unfold vectorOfSize at hv
  split at hv
  · cases hv
    cases hb
    simp only [List.length_replicate]
    unfold SizeT.add
    unfold kCheapPrepend at hw ⊢
    omega
  · cases hv

/-- Every run of calls on constructed buffers behaves as a family of byte queues
if and only if no constructor's sum of header and size wrapped. -/
theorem runs_are_queues_iff (size : ι → Nat) (bs : ι → Buffer) (hsize : ∀ i, size i < 2 ^ 64)
    (hnew : ∀ i, new (size i) = .ok (bs i)) :
    (∀ acts cs, Run Step bs acts cs → IsQueue cs (acts.foldl Action.onQueues fun _ => [])) ↔
      ∀ i, kCheapPrepend + size i < 2 ^ 64 := by
  constructor
  · intro h i
    by_contra hw
    have hlt := new_wrapped (hsize i) hw (hnew i)
    have hle := ((h [] bs (.nil bs)).ordered i).2
    omega
  · intro h acts cs hr
    exact (run_refines hr _ fun i => new_spec (h i) (hnew i)).isQueue

end Family

/-- Two buffers of twenty bytes: all runs from them are runs of queues. -/
theorem runs_are_queues_twenty :
    new 20 = .ok ⟨List.replicate 28 0, 8, 8⟩ ∧
      ∀ acts cs, Run Step (fun _ : Bool => ⟨List.replicate 28 0, 8, 8⟩) acts cs →
        IsQueue cs (acts.foldl Action.onQueues fun _ => []) := by
  have hnew : new 20 = .ok ⟨List.replicate 28 0, 8, 8⟩ := new_of_fits (by decide)
  exact ⟨hnew, (runs_are_queues_iff (fun _ => 20) _ (by decide) fun _ => hnew).mpr (by decide)⟩

/-- `Buffer(2^64 - 1)` asks for seven bytes and puts both indices at eight. -/
theorem largest_size_is_no_queue :
    ∃ b, new (2 ^ 64 - 1) = .ok b ∧ b.writerIndex = 8 ∧ b.buffer.length = 7 ∧
      Run Step (fun _ : Unit => b) [] (fun _ => b) ∧ ¬ IsQueue (fun _ : Unit => b) fun _ => [] := by
  have hwrap : SizeT.add kCheapPrepend (2 ^ 64 - 1) = 7 := by unfold SizeT.add; rfl
  refine ⟨⟨List.replicate 7 0, 8, 8⟩, ?_, rfl, rfl, .nil _, ?_⟩
  · rw [new, hwrap]
    rfl
  intro h
  exact absurd (h.ordered ()).2 (by decide)

end RyanNetwork.Buffer.ByteQueue

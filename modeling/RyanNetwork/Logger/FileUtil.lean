import Mathlib.Algebra.BigOperators.Group.Finset.Basic

/-!
# `FileUtil`

`Append` calls `fwrite` with what is left until everything is written. What the stream
answers is given call by call: how many bytes it takes, and whether its error indicator is
set afterwards. `Append` reports an error and then goes on, so on a stream that has failed
for good it never returns.
-/
namespace RyanNetwork.Logger

open Finset

set_option autoImplicit false

/-- The answers of a stream to its calls of `fwrite`, counted from 0: `room i` is the
number of bytes that call `i` takes at most, `error i` is `ferror` after it. An error stays,
and a call without one takes something. -/
structure Stream where
  room : Nat → Nat
  error : Nat → Bool
  sticky : ∀ i j, i ≤ j → error i = true → error j = true
  progress : ∀ i, error i = false → 0 < room i

/-- `contents` are the bytes that the stream took, `calls` the calls of `fwrite` and
`complaints` the messages on `stderr` so far. -/
structure FileUtil where
  contents : List UInt8
  writtenBytes : Nat
  calls : Nat
  complaints : Nat
  deriving DecidableEq, Repr

namespace FileUtil

/-- `FileUtil(fileName)`. -/
def new : FileUtil := ⟨[], 0, 0, 0⟩

/-- `Write`: the number of bytes taken. -/
def write (s : Stream) (f : FileUtil) (data : List UInt8) : Nat × FileUtil :=
  let n := min (s.room f.calls) data.length
  (n, { f with contents := f.contents ++ data.take n, calls := f.calls + 1 })

/-- One turn of the loop of `Append`, with `written` of the bytes written before it. -/
def turn (s : Stream) (data : List UInt8) (f : FileUtil) (written : Nat) : FileUtil × Nat :=
  let remain := data.length - written
  let (n, g) := f.write s (data.drop written)
  if n ≠ remain ∧ s.error f.calls then
    ({ g with complaints := g.complaints + 1 }, written + n)
  else (g, written + n)

/-- The loop of `Append`; `none` if it needs more turns than `fuel`. -/
def appendLoop (s : Stream) (data : List UInt8) : Nat → FileUtil → Nat → Option FileUtil
  | 0, _, _ => none
  | fuel + 1, f, written =>
    if written = data.length then some { f with writtenBytes := f.writtenBytes + written }
    else
      let (g, written) := f.turn s data written
      appendLoop s data fuel g written

def append (s : Stream) (f : FileUtil) (data : List UInt8) (fuel : Nat) : Option FileUtil :=
  appendLoop s data fuel f 0

/-- The file and the number of bytes written when the loop has made `n` turns, or has
ended before. -/
def afterTurns (s : Stream) (data : List UInt8) : Nat → FileUtil → Nat → FileUtil × Nat
  | 0, f, written => (f, written)
  | n + 1, f, written =>
    if written = data.length then (f, written)
    else afterTurns s data n (f.turn s data written).1 (f.turn s data written).2

/-- What `Append` is for: it returns; at every time what it has written is a beginning of
the data; when it returns, this is all of the data unless a call had an error, and
`written_bytes_` has grown by it. -/
structure AppendsInOrder (s : Stream) (f : FileUtil) (data : List UInt8) : Prop where
  returns : ∃ fuel g written, f.append s data fuel = some g ∧ written <+: data ∧
    g.contents = f.contents ++ written ∧ g.writtenBytes = f.writtenBytes + written.length ∧
    ((∀ i, f.calls ≤ i → i < g.calls → s.error i = false) → written = data)
  ordered : ∀ n, ∃ written, written <+: data ∧
    (afterTurns s data n f 0).1.contents = f.contents ++ written

section Loop

variable (s : Stream) (data : List UInt8)

theorem turn_spec (f : FileUtil) (written : Nat) :
    (f.turn s data written).2 = written + min (s.room f.calls) (data.length - written) ∧
      (f.turn s data written).1.contents =
        f.contents ++ (data.drop written).take (min (s.room f.calls) (data.length - written)) ∧
      (f.turn s data written).1.calls = f.calls + 1 ∧
      (f.turn s data written).1.writtenBytes = f.writtenBytes := by
  simp only [turn, write, List.length_drop]
  split
  · exact ⟨rfl, rfl, rfl, rfl⟩
  · exact ⟨rfl, rfl, rfl, rfl⟩

/-- The loop has written what there was room for, in order. -/
theorem afterTurns_spec (n : Nat) (f : FileUtil) (written : Nat) (hle : written ≤ data.length) :
    (afterTurns s data n f written).2 =
        min data.length (written + ∑ i ∈ range n, s.room (f.calls + i)) ∧
      (afterTurns s data n f written).1.contents = f.contents ++
        (data.drop written).take ((afterTurns s data n f written).2 - written) ∧
      (afterTurns s data n f written).1.writtenBytes = f.writtenBytes := by
  induction n generalizing f written with
  | zero =>
    refine ⟨?_, ?_, rfl⟩
    · simp [afterTurns, hle]
    · simp [afterTurns]
  | succ n ih =>
    rw [afterTurns]
    by_cases hend : written = data.length
    · rw [if_pos hend]
      refine ⟨?_, ?_, rfl⟩
      · dsimp only
        omega
      · simp
    · rw [if_neg hend]
      obtain ⟨hw, hc, hcalls, hbytes⟩ := turn_spec s data f written
      generalize f.turn s data written = t at hw hc hcalls hbytes
      obtain ⟨h1, h2, h3⟩ := ih t.1 t.2 (by omega)
      have hsum : ∑ i ∈ range (n + 1), s.room (f.calls + i) =
          ∑ i ∈ range n, s.room (f.calls + 1 + i) + s.room f.calls := by
        rw [sum_range_succ']
        simp only [Nat.add_zero, Nat.add_assoc, Nat.add_comm 1]
      rw [hcalls] at h1
      refine ⟨?_, ?_, h3.trans hbytes⟩
      · rw [h1, hsum]
        omega
      · have hsplit : (afterTurns s data n t.1 t.2).2 - written =
            min (s.room f.calls) (data.length - written) +
              ((afterTurns s data n t.1 t.2).2 - t.2) := by omega
        rw [h2, hc, List.append_assoc, hsplit, List.take_add, List.drop_drop, ← hw]

/-- The loop returns once everything is written. -/
theorem appendLoop_eq (fuel : Nat) (f : FileUtil) (written : Nat) :
    appendLoop s data (fuel + 1) f written =
      if (afterTurns s data fuel f written).2 = data.length then
        some { (afterTurns s data fuel f written).1 with
          writtenBytes := (afterTurns s data fuel f written).1.writtenBytes + data.length }
      else none := by
  induction fuel generalizing f written with
  | zero =>
    have hstart : afterTurns s data 0 f written = (f, written) := rfl
    rw [hstart, appendLoop]
    by_cases hend : written = data.length
    · rw [if_pos hend, if_pos hend, hend]
    · rw [if_neg hend, if_neg hend]
      rfl
  | succ fuel ih =>
    rw [appendLoop, afterTurns]
    by_cases hend : written = data.length
    · rw [if_pos hend, if_pos hend, if_pos hend, hend]
    · rw [if_neg hend, if_neg hend]
      exact ih _ _

/-- A call that returns has written everything. -/
theorem append_ok {f g : FileUtil} {fuel : Nat} (h : f.append s data fuel = some g) :
    g.contents = f.contents ++ data ∧ g.writtenBytes = f.writtenBytes + data.length := by
  cases fuel with
  | zero => cases h
  | succ fuel =>
    obtain ⟨-, hcontents, hbytes⟩ := afterTurns_spec s data fuel f 0 (Nat.zero_le _)
    rw [append, appendLoop_eq] at h
    split at h
    · rename_i hend
      cases h
      refine ⟨?_, ?_⟩
      · dsimp only
        rw [hcontents, hend, Nat.sub_zero, List.drop_zero, List.take_length]
      · dsimp only
        rw [hbytes]
    · cases h

/-- A call returns exactly if the stream has room for the data. -/
theorem append_returns_iff (f : FileUtil) :
    (∃ fuel g, f.append s data fuel = some g) ↔
      ∃ n, data.length ≤ ∑ i ∈ range n, s.room (f.calls + i) := by
  constructor
  · rintro ⟨fuel, g, h⟩
    cases fuel with
    | zero => cases h
    | succ fuel =>
      obtain ⟨hwritten, -, -⟩ := afterTurns_spec s data fuel f 0 (Nat.zero_le _)
      rw [append, appendLoop_eq] at h
      split at h
      · exact ⟨fuel, by omega⟩
      · cases h
  · rintro ⟨n, hn⟩
    obtain ⟨hwritten, -, -⟩ := afterTurns_spec s data n f 0 (Nat.zero_le _)
    have hend : (afterTurns s data n f 0).2 = data.length := by omega
    exact ⟨n + 1, _, (appendLoop_eq s data n f 0).trans (if_pos hend)⟩

/-- Without an error there is room for everything. -/
theorem room_of_no_error (f : FileUtil) (h : ∀ i, f.calls ≤ i → s.error i = false) (n : Nat) :
    n ≤ ∑ i ∈ range n, s.room (f.calls + i) := by
  induction n with
  | zero => exact Nat.zero_le _
  | succ n ih =>
    have hone := s.progress (f.calls + n) (h _ (Nat.le_add_right _ _))
    rw [sum_range_succ]
    omega

/-- A call returns if no `fwrite` has an error. -/
theorem append_returns_of_no_error (f : FileUtil)
    (h : ∀ i, f.calls ≤ i → s.error i = false) : ∃ fuel g, f.append s data fuel = some g :=
  (append_returns_iff s data f).mpr ⟨data.length, room_of_no_error s f h data.length⟩

/-- For every stream, every state of the file and all data: `Append` returns with the data
written in order if and only if the stream takes as many bytes, over all its calls, as the
data has. -/
theorem append_in_order_iff (f : FileUtil) :
    AppendsInOrder s f data ↔ ∃ n, data.length ≤ ∑ i ∈ range n, s.room (f.calls + i) := by
  rw [← append_returns_iff]
  constructor
  · intro h
    obtain ⟨fuel, g, -, hg, -⟩ := h.returns
    exact ⟨fuel, g, hg⟩
  · rintro ⟨fuel, g, hg⟩
    obtain ⟨hcontents, hbytes⟩ := append_ok s data hg
    refine ⟨⟨fuel, g, data, hg, List.prefix_refl _, hcontents, hbytes, fun _ => rfl⟩, ?_⟩
    intro n
    obtain ⟨-, hturns, -⟩ := afterTurns_spec s data n f 0 (Nat.zero_le _)
    exact ⟨_, List.take_prefix _ _, hturns⟩

end Loop

/-- A full disk: every call takes nothing and has an error. -/
def fullDisk : Stream where
  room := fun _ => 0
  error := fun _ => true
  sticky := fun _ _ _ _ => rfl
  progress := fun _ h => nomatch h

/-- On a full disk a single byte keeps the loop busy for ever. -/
theorem fullDisk_append_spins :
    (∀ fuel, FileUtil.new.append fullDisk [97] fuel = none) ∧
      ¬AppendsInOrder fullDisk FileUtil.new [97] := by
  have hnone (fuel : Nat) : FileUtil.new.append fullDisk [97] fuel = none := by
    cases fuel with
    | zero => rfl
    | succ fuel =>
      obtain ⟨hwritten, -, -⟩ := afterTurns_spec fullDisk [97] fuel .new 0 (Nat.zero_le _)
      have hzero : ∑ i ∈ range fuel, fullDisk.room (FileUtil.new.calls + i) = 0 :=
        sum_eq_zero fun _ _ => rfl
      rw [hzero] at hwritten
      rw [append, appendLoop_eq, if_neg]
      rw [hwritten]
      decide
  refine ⟨hnone, fun h => ?_⟩
  obtain ⟨fuel, g, -, hg, -⟩ := h.returns
  rw [hnone] at hg
  cases hg

end FileUtil

end RyanNetwork.Logger

import Mathlib.Algebra.Group.Nat.Defs
import RyanNetwork.Buffer.Growth
import RyanNetwork.Buffer.Received

/-!
# Integers in network order

`AppendIntN` and `PrependIntN` store the big-endian bytes of a two's-complement
integer, `PeekIntN` and `ReadIntN` take them back. `htobeN` and `beNtoh` convert
between the order of the host and big-endian order: the bytes in memory of
`htobeN(x)` are those of `x`, most significant first, and `beNtoh` of the integer
with given bytes in memory is the number that these spell in that order.
-/
namespace RyanNetwork.Buffer

open Lib

set_option autoImplicit false

/-- The number that bytes spell, most significant first. -/
def beValue (bytes : List UInt8) : Nat := bytes.foldl (fun x byte => 256 * x + byte.toNat) 0

/-- `PeekInt8`, `PeekInt16`, `PeekInt32` and `PeekInt64` at width `n`. -/
def peekInt (n : Nat) (b : Buffer) : Except Fault (BitVec (8 * n)) :=
  if n ≤ b.readableBytes then do
    let bytes ← b.peekString n
    return BitVec.ofNat (8 * n) (beValue bytes)
  else .error .assertion

def peekInt64 (b : Buffer) : Except Fault (BitVec 64) := peekInt 8 b

def peekInt32 (b : Buffer) : Except Fault (BitVec 32) := peekInt 4 b

def peekInt16 (b : Buffer) : Except Fault (BitVec 16) := peekInt 2 b

def peekInt8 (b : Buffer) : Except Fault (BitVec 8) := peekInt 1 b

/-- `ReadIntN`: `PeekIntN`, then `RetrieveIntN`, which retrieves `sizeof(intN_t)` bytes. -/
def readInt (n : Nat) (b : Buffer) : Except Fault (BitVec (8 * n) × Buffer) := do
  let result ← peekInt n b
  return (result, b.retrieve n)

def readInt64 (b : Buffer) : Except Fault (BitVec 64 × Buffer) := readInt 8 b

def readInt32 (b : Buffer) : Except Fault (BitVec 32 × Buffer) := readInt 4 b

def readInt16 (b : Buffer) : Except Fault (BitVec 16 × Buffer) := readInt 2 b

def readInt8 (b : Buffer) : Except Fault (BitVec 8 × Buffer) := readInt 1 b

/-- `PrependIntN` at width `n`. -/
def prependInt (n : Nat) (b : Buffer) (x : BitVec (8 * n)) : Except Fault Buffer :=
  b.prepend (beBytes n x.toNat)

def prependInt64 (b : Buffer) (x : BitVec 64) : Except Fault Buffer := prependInt 8 b x

def prependInt32 (b : Buffer) (x : BitVec 32) : Except Fault Buffer := prependInt 4 b x

def prependInt16 (b : Buffer) (x : BitVec 16) : Except Fault Buffer := prependInt 2 b x

def prependInt8 (b : Buffer) (x : BitVec 8) : Except Fault Buffer := prependInt 1 b x

/-! ## One integer -/

theorem beValue_beBytes (n x : Nat) : beValue (beBytes n x) = x % 256 ^ n := by
  induction n generalizing x with
  | zero => rw [Nat.pow_zero, Nat.mod_one]; rfl
  | succ n ih =>
    have hbyte : (UInt8.ofNat (x % 256)).toNat = x % 256 := by
      rw [UInt8.toNat_ofNat']
      omega
    have hlast : beValue (beBytes (n + 1) x) = 256 * beValue (beBytes n (x / 256)) + x % 256 := by
      rw [← hbyte]
      exact List.foldl_append
    rw [hlast, ih, Nat.pow_succ', Nat.mod_mul]
    omega

theorem ofNat_beValue {n : Nat} (x : BitVec (8 * n)) :
    BitVec.ofNat (8 * n) (beValue (beBytes n x.toNat)) = x := by
  have hlt : x.toNat < 256 ^ n := by
    have hx := x.isLt
    rwa [Nat.pow_mul] at hx
  rw [beValue_beBytes, Nat.mod_eq_of_lt hlt, BitVec.ofNat_toNat, BitVec.setWidth_eq]

/-- The bytes of an integer at the front of the content are read as that integer, and
the content behind them is left. -/
theorem readInt_spec {b : Buffer} (h : b.Valid) {n : Nat} {x : BitVec (8 * n)}
    {rest : List UInt8} (hc : b.content = beBytes n x.toNat ++ rest) :
    readInt n b = .ok (x, b.retrieve n) ∧ (b.retrieve n).Valid ∧
      (b.retrieve n).content = rest := by
  obtain ⟨hv, hr⟩ := retrieve_spec h n
  have hlen := beBytes_length n x.toNat
  have hroom : n ≤ b.readableBytes := by
    rw [← content_length h, hc, List.length_append]
    omega
  refine ⟨?_, hv, ?_⟩
  · unfold readInt peekInt
    rw [if_pos hroom, peekString_spec h hroom, hc, List.take_left' hlen]
    change Except.ok (BitVec.ofNat (8 * n) (beValue (beBytes n x.toNat)), _) = _
    rw [ofNat_beValue]
  · rw [hr, hc, List.drop_left' hlen]

/-- A prefix that fits the room before the content is put there. -/
theorem prepend_fits {b : Buffer} (h : b.Valid) {data : List UInt8}
    (hl : data.length ≤ b.prependableBytes) : ∃ c, b.prepend data = .ok c := by
  have ho := h.ordered
  have hb := h.bounded
  have hlen := length_lt h
  have hp : data.length ≤ b.readerIndex := hl
  unfold prepend
  rw [if_pos hl, SizeT.sub_exact hp (by omega)]
  simp only [copyInto_outcome b.buffer (b.readerIndex - data.length) data (by omega)]
  exact ⟨_, rfl⟩

/-! ## Integers of mixed widths -/

namespace Integers

open Growth Received

/-- The four integer types of the interface. -/
inductive Width where
  | int8
  | int16
  | int32
  | int64
  deriving DecidableEq, Repr

def Width.size : Width → Nat
  | .int8 => 1
  | .int16 => 2
  | .int32 => 4
  | .int64 => 8

/-- An integer of one of the four types, in two's complement. -/
structure Sized where
  width : Width
  value : BitVec (8 * width.size)
  deriving DecidableEq

/-- The `AppendIntN` of the integer's type. -/
def Sized.append (b : Buffer) : Sized → Except Fault Buffer
  | ⟨.int8, x⟩ => b.appendInt8 x
  | ⟨.int16, x⟩ => b.appendInt16 x
  | ⟨.int32, x⟩ => b.appendInt32 x
  | ⟨.int64, x⟩ => b.appendInt64 x

/-- The `PrependIntN` of the integer's type. -/
def Sized.prepend (b : Buffer) : Sized → Except Fault Buffer
  | ⟨.int8, x⟩ => b.prependInt8 x
  | ⟨.int16, x⟩ => b.prependInt16 x
  | ⟨.int32, x⟩ => b.prependInt32 x
  | ⟨.int64, x⟩ => b.prependInt64 x

/-- The `ReadIntN` of a type. -/
def Width.read (b : Buffer) : (w : Width) → Except Fault (BitVec (8 * w.size) × Buffer)
  | .int8 => b.readInt8
  | .int16 => b.readInt16
  | .int32 => b.readInt32
  | .int64 => b.readInt64

def appendAll (b : Buffer) : List Sized → Except Fault Buffer
  | [] => .ok b
  | x :: xs => do
    let b ← x.append b
    appendAll b xs

def readAll (b : Buffer) : List Width → Except Fault (List Sized × Buffer)
  | [] => .ok ([], b)
  | w :: ws => do
    let (x, b) ← w.read b
    let (xs, b) ← readAll b ws
    return (⟨w, x⟩ :: xs, b)

/-- The big-endian two's-complement bytes of an integer. -/
def Sized.bytes (x : Sized) : List UInt8 := beBytes x.width.size x.value.toNat

theorem Sized.append_eq (b : Buffer) (x : Sized) : x.append b = b.append x.bytes := by
  obtain ⟨w, v⟩ := x
  cases w <;> rfl

theorem Sized.prepend_eq (b : Buffer) (x : Sized) : x.prepend b = Buffer.prepend b x.bytes := by
  obtain ⟨w, v⟩ := x
  cases w <;> rfl

theorem Width.read_eq (b : Buffer) (w : Width) : w.read b = readInt w.size b := by
  cases w <;> rfl

theorem Sized.bytes_length (x : Sized) : x.bytes.length = x.width.size := beBytes_length ..

theorem Width.size_le (w : Width) : w.size ≤ 8 := by
  cases w <;> decide

/-- Appending integers one by one appends their bytes, or throws `length_error`. -/
theorem appendAll_spec {b : Buffer} (h : b.Valid) (xs : List Sized) :
    Outcome (appendAll b xs)
      (fun c => c.Valid ∧ c.content = b.content ++ xs.flatMap Sized.bytes) (· = .lengthError) := by
  induction xs generalizing b with
  | nil => exact Outcome.ok ⟨h, (List.append_nil _).symm⟩
  | cons x xs ih =>
    have hsize := x.width.size_le
    have hlen := x.bytes_length
    rw [appendAll, Sized.append_eq]
    refine (append_spec h (by omega)).bind ?_
    rintro c ⟨hv, hc⟩
    rw [List.flatMap_cons, ← List.append_assoc, ← hc]
    exact ih hv

/-- Integers that the vector can hold behind the writer index are all appended. -/
theorem appendAll_returns {b : Buffer} (h : b.Valid) (xs : List Sized)
    (hmax : b.writerIndex + (xs.flatMap Sized.bytes).length ≤ vectorMaxSize) :
    ∃ c, appendAll b xs = .ok c := by
  induction xs generalizing b with
  | nil => exact ⟨b, rfl⟩
  | cons x xs ih =>
    rw [List.flatMap_cons, List.length_append] at hmax
    have hsize := x.width.size_le
    have hlen := x.bytes_length
    have htakes : Takes b x.bytes.length := Or.inr (Or.inr ⟨by omega, by omega⟩)
    obtain ⟨c, hc, hle⟩ := append_of_takes h htakes
    obtain ⟨d, hd⟩ := ih (append_ok h hc).1 (by omega)
    refine ⟨d, ?_⟩
    rw [appendAll, Sized.append_eq, hc]
    exact hd

/-- Reading with the widths of the integers that the content starts with returns them. -/
theorem readAll_spec {b : Buffer} (h : b.Valid) (xs : List Sized) {rest : List UInt8}
    (hc : b.content = xs.flatMap Sized.bytes ++ rest) :
    ∃ c, readAll b (xs.map Sized.width) = .ok (xs, c) ∧ c.Valid ∧ c.content = rest := by
  induction xs generalizing b with
  | nil => exact ⟨b, rfl, h, hc⟩
  | cons x xs ih =>
    rw [List.flatMap_cons, List.append_assoc] at hc
    obtain ⟨hread, hv, hcont⟩ := readInt_spec (x := x.value) h hc
    obtain ⟨d, hd, hdv, hdc⟩ := ih hv hcont
    refine ⟨d, ?_, hdv, hdc⟩
    rw [List.map_cons, readAll, Width.read_eq, hread]
    change (readAll (b.retrieve x.width.size) (xs.map Sized.width) >>= _) = _
    rw [hd]
    rfl

/-- For every reachable buffer. Where it is empty and the vector can hold them, appending
integers of mixed widths makes the content their big-endian bytes, and reading with the
same widths returns the same values and leaves the buffer empty; appends that do not
return have thrown `length_error`. An integer that fits the room before the content is
prepended, read back, and the content is the one before. -/
theorem integers_read_back {b : Buffer} (hb : Reachable b) :
    (b.content = [] → ∀ xs : List Sized,
      (b.writerIndex + (xs.flatMap Sized.bytes).length ≤ vectorMaxSize →
        ∃ c, appendAll b xs = .ok c) ∧
      (∀ e, appendAll b xs = .error e → e = .lengthError) ∧
      ∀ c, appendAll b xs = .ok c → c.content = xs.flatMap Sized.bytes ∧
        ∃ d, readAll c (xs.map Sized.width) = .ok (xs, d) ∧ d.content = []) ∧
      ∀ x : Sized, x.width.size ≤ b.prependableBytes →
        ∃ c d, x.prepend b = .ok c ∧ c.content = x.bytes ++ b.content ∧
          x.width.read c = .ok (x.value, d) ∧ d.content = b.content := by
  have hv := reachable_valid hb
  constructor
  · intro hempty xs
    have hs := appendAll_spec hv xs
    rw [hempty, List.nil_append] at hs
    refine ⟨appendAll_returns hv xs, fun e he => hs.of_error he, fun c hc => ?_⟩
    obtain ⟨hcv, hcc⟩ := hs.of_ok hc
    have hall : c.content = xs.flatMap Sized.bytes ++ [] := by rw [hcc, List.append_nil]
    obtain ⟨d, hd, -, hdc⟩ := readAll_spec hcv xs hall
    exact ⟨hcc, d, hd, hdc⟩
  · intro x hroom
    have hfit : x.bytes.length ≤ b.prependableBytes := by
      rw [x.bytes_length]
      exact hroom
    obtain ⟨c, hc⟩ := prepend_fits hv hfit
    obtain ⟨hcv, hcc⟩ := (prepend_spec hv hfit).of_ok hc
    obtain ⟨hread, -, hrest⟩ := readInt_spec (x := x.value) hcv hcc
    refine ⟨c, c.retrieve x.width.size, ?_, hcc, ?_, hrest⟩
    · rw [Sized.prepend_eq, hc]
    · rw [Width.read_eq, hread]

/-- A fresh default buffer, and integers of all four widths: `-1`, `-2`, `258` and
`-9223372036854775808`. -/
theorem mixed_integers_read_back :
    ∃ c d,
      appendAll ofDefaultSize [⟨.int8, -1⟩, ⟨.int16, -2⟩, ⟨.int32, 258⟩, ⟨.int64, 1 <<< 63⟩] =
        .ok c ∧
      c.content = [255, 255, 254, 0, 0, 1, 2, 128, 0, 0, 0, 0, 0, 0, 0] ∧
      readAll c [.int8, .int16, .int32, .int64] =
        .ok ([⟨.int8, -1⟩, ⟨.int16, -2⟩, ⟨.int32, 258⟩, ⟨.int64, 1 <<< 63⟩], d) ∧
      d.content = [] := by
  obtain ⟨hreturns, -, hread⟩ :=
    (integers_read_back (.new (by decide) new_default)).1 ofDefaultSize_spec.2
      [⟨.int8, -1⟩, ⟨.int16, -2⟩, ⟨.int32, 258⟩, ⟨.int64, 1 <<< 63⟩]
  obtain ⟨c, hc⟩ := hreturns (by decide +kernel)
  obtain ⟨hcont, d, hd, hempty⟩ := hread c hc
  exact ⟨c, d, hc, hcont.trans (by decide +kernel), hd, hempty⟩

end Integers

end RyanNetwork.Buffer

import Mathlib.Data.List.Basic
import RyanNetwork.Lib.SizeT

/-!
# `Buffer`: a vector of bytes and two indices

The class of `buffer/buffer.h`, function by function. `buffer_` is a list of
bytes, `reader_index_` and `writer_index_` are `size_t` values and their sums
and differences are those of `Lib.SizeT`. A call that does not return normally
is an `Except` error: the `length_error` of a vector asked to exceed its maximum
size, a failed `assert`, the `abort` of `LOG_FATAL`, or an access outside `buffer_`.
-/
namespace RyanNetwork

open Lib

set_option autoImplicit false

/-- The ways in which a modelled call ends without returning. -/
inductive Fault where
  | lengthError
  | assertion
  | fatal
  | outOfBounds
  deriving DecidableEq, Repr

/-- `std::vector<char>::max_size()`. -/
def vectorMaxSize : Nat := 2 ^ 63 - 1

/-- `std::vector<char> v(n)`: `n` zero bytes. -/
def vectorOfSize (n : Nat) : Except Fault (List UInt8) :=
  if n ≤ vectorMaxSize then .ok (List.replicate n 0) else .error .lengthError

/-- `v.resize(n)`: truncates, or appends zero bytes. -/
def resize (v : List UInt8) (n : Nat) : Except Fault (List UInt8) :=
  if n ≤ vectorMaxSize then .ok (v.take n ++ List.replicate (n - v.length) 0)
  else .error .lengthError

/-- `std::copy(data, data + len, v.begin() + dst)` from outside the vector. -/
def copyInto (v : List UInt8) (dst : Nat) (data : List UInt8) : Except Fault (List UInt8) :=
  if dst + data.length ≤ v.length then
    .ok (v.take dst ++ data ++ v.drop (dst + data.length))
  else .error .outOfBounds

/-- The loop of `std::copy` inside one vector: one byte at a time, upwards. -/
def copyLoop (v : List UInt8) (src dst : Nat) : Nat → List UInt8
  | 0 => v
  | n + 1 => copyLoop (v.set dst (v.getD src 0)) (src + 1) (dst + 1) n

/-- `std::copy(v.begin() + src, v.begin() + src + n, v.begin() + dst)`. -/
def copyWithin (v : List UInt8) (src dst n : Nat) : Except Fault (List UInt8) :=
  if src + n ≤ v.length ∧ dst + n ≤ v.length then .ok (copyLoop v src dst n)
  else .error .outOfBounds

/-- The `n` low bytes of a number, most significant first. -/
def beBytes : Nat → Nat → List UInt8
  | 0, _ => []
  | n + 1, x => beBytes n (x / 256) ++ [UInt8.ofNat (x % 256)]

structure Buffer where
  buffer : List UInt8
  readerIndex : Nat
  writerIndex : Nat
  deriving DecidableEq, Repr

namespace Buffer

def kCheapPrepend : Nat := 8

def kInitialSize : Nat := 1024

/-- `Buffer(size_t initialSize)`. -/
def new (initialSize : Nat) : Except Fault Buffer := do
  let v ← vectorOfSize (SizeT.add kCheapPrepend initialSize)
  return ⟨v, kCheapPrepend, kCheapPrepend⟩

/-- `Buffer()`, whose construction never fails: see `new_default`. -/
def ofDefaultSize : Buffer :=
  ⟨List.replicate (kCheapPrepend + kInitialSize) 0, kCheapPrepend, kCheapPrepend⟩

/-- The two buffers after `Swap(rhs)`: this one, then `rhs`. -/
def swap (b rhs : Buffer) : Buffer × Buffer :=
  (⟨rhs.buffer, rhs.readerIndex, rhs.writerIndex⟩, ⟨b.buffer, b.readerIndex, b.writerIndex⟩)

def readableBytes (b : Buffer) : Nat := SizeT.sub b.writerIndex b.readerIndex

def writableBytes (b : Buffer) : Nat := SizeT.sub b.buffer.length b.writerIndex

def prependableBytes (b : Buffer) : Nat := b.readerIndex

/-- `std::string(Peek(), len)`: reads `len` bytes from the reader index on. -/
def peekString (b : Buffer) (len : Nat) : Except Fault (List UInt8) :=
  if b.readerIndex + len ≤ b.buffer.length then .ok ((b.buffer.drop b.readerIndex).take len)
  else .error .outOfBounds

def retrieveAll (b : Buffer) : Buffer :=
  { b with readerIndex := kCheapPrepend, writerIndex := kCheapPrepend }

def retrieve (b : Buffer) (len : Nat) : Buffer :=
  if len < b.readableBytes then { b with readerIndex := SizeT.add b.readerIndex len }
  else b.retrieveAll

/-- `RetrieveUntil(Peek() + offset)`. -/
def retrieveUntil (b : Buffer) (offset : Nat) : Buffer := b.retrieve offset

def retrieveAsString (b : Buffer) (len : Nat) : Except Fault (List UInt8 × Buffer) := do
  let result ← b.peekString len
  return (result, b.retrieve len)

def retrieveAllAsString (b : Buffer) : Except Fault (List UInt8 × Buffer) :=
  b.retrieveAsString b.readableBytes

def contentToString (b : Buffer) : Except Fault (List UInt8) := b.peekString b.readableBytes

/-- The test of `MakeSpace(int len)`: no room even after moving the content. -/
def needsResize (b : Buffer) (len : Int) : Bool :=
  SizeT.add b.writableBytes b.prependableBytes < SizeT.add (SizeT.ofInt len) kCheapPrepend

def makeSpace (b : Buffer) (len : Int) : Except Fault Buffer :=
  if b.needsResize len then do
    let v ← resize b.buffer (SizeT.add b.writerIndex (SizeT.ofInt len))
    return { b with buffer := v }
  else do
    let readable := b.readableBytes
    let v ← copyWithin b.buffer b.readerIndex kCheapPrepend (SizeT.sub b.writerIndex b.readerIndex)
    return ⟨v, kCheapPrepend, SizeT.add kCheapPrepend readable⟩

def ensureWritableBytes (b : Buffer) (len : Nat) : Except Fault Buffer :=
  if b.writableBytes < len then b.makeSpace (SizeT.toInt len) else .ok b

def append (b : Buffer) (data : List UInt8) : Except Fault Buffer := do
  let b ← b.ensureWritableBytes data.length
  let v ← copyInto b.buffer b.writerIndex data
  return { b with buffer := v, writerIndex := SizeT.add b.writerIndex data.length }

/-- `AppendInt8`, `AppendInt16`, `AppendInt32` and `AppendInt64` at width `n`: the
bytes in memory of `HostToNetworkN(x)` are those of `x` in big-endian order. -/
def appendInt (n : Nat) (b : Buffer) (x : BitVec (8 * n)) : Except Fault Buffer :=
  b.append (beBytes n x.toNat)

def appendInt64 (b : Buffer) (x : BitVec 64) : Except Fault Buffer := appendInt 8 b x

def appendInt32 (b : Buffer) (x : BitVec 32) : Except Fault Buffer := appendInt 4 b x

def appendInt16 (b : Buffer) (x : BitVec 16) : Except Fault Buffer := appendInt 2 b x

def appendInt8 (b : Buffer) (x : BitVec 8) : Except Fault Buffer := appendInt 1 b x

def prepend (b : Buffer) (data : List UInt8) : Except Fault Buffer :=
  if data.length ≤ b.prependableBytes then do
    let readerIndex := SizeT.sub b.readerIndex data.length
    let v ← copyInto b.buffer readerIndex data
    return { b with buffer := v, readerIndex := readerIndex }
  else .error .assertion

def shrink (b : Buffer) (reserve : Nat) : Except Fault Buffer := do
  let other ← new kInitialSize
  let other ← other.ensureWritableBytes (SizeT.add b.readableBytes reserve)
  let content ← b.contentToString
  let other ← other.append content
  return (b.swap other).1

/-- What `::readv` answers: the bytes it stored, or `-1` and `errno`. -/
inductive ReadResult where
  | received (data : List UInt8)
  | failed (errno : Nat)
  deriving DecidableEq, Repr

/-- `sizeof(extrabuf)`. -/
def extrabufSize : Nat := 65536

/-- `ReadFd`: the kernel fills the writable region first and the rest of what it
delivers into the stack buffer, from where it is appended. -/
def readFd (b : Buffer) : ReadResult → Except Fault Buffer
  | .failed _ => .ok b
  | .received data =>
    let writable := b.writableBytes
    if data.length ≤ writable then do
      let v ← copyInto b.buffer b.writerIndex data
      return { b with buffer := v, writerIndex := SizeT.add b.writerIndex data.length }
    else do
      let v ← copyInto b.buffer b.writerIndex (data.take writable)
      append { b with buffer := v, writerIndex := v.length } (data.drop writable)

end Buffer

end RyanNetwork

import RyanNetwork.Buffer.Growth
import Mathlib.Algebra.GroupWithZero.Nat

/-!
# Several strings in a row

Which strings `Append` takes one after the other, from their lengths and the sizes of the
buffer before the first of them. The content is moved to the front at most once: behind that
its reader index is `kCheapPrepend`. So the indices before a string follow from the bytes of
the strings before it and, once the content has been moved, from the bytes before that.
-/
namespace RyanNetwork.Buffer.Series

open Lib Growth

set_option autoImplicit false

/-- The size of the vector behind `t` bytes, as long as the content has not been moved. -/
def sizeAt (b : Buffer) (t : Nat) : Nat := max b.buffer.length (b.writerIndex + t)

/-- The size that is needed for `t` bytes behind the content once it has been moved. -/
def movedTo (b : Buffer) (t : Nat) : Nat := kCheapPrepend + (b.writerIndex - b.readerIndex) + t

/-- Behind `t` bytes, a string of `n` bytes finds its room only by moving the content. -/
def Moves (b : Buffer) (t n : Nat) : Prop :=
  sizeAt b t < b.writerIndex + t + n ∧ movedTo b (t + n) ≤ sizeAt b t

instance (b : Buffer) (t n : Nat) : Decidable (Moves b t n) := inferInstanceAs (Decidable (_ ∧ _))

/-- A string of `n` bytes behind `t` others is taken; the content was moved behind `moved`
bytes. It has room, or is moved if the `int` of `MakeSpace` allows it, or the vector grows. -/
def Fits (b : Buffer) : Option Nat → Nat → Nat → Prop
  | none, t, n => b.writerIndex + t + n ≤ sizeAt b t ∨
      Moves b t n ∧ (n % 2 ^ 32 < 2 ^ 31 ∨ 2 ^ 32 - kCheapPrepend ≤ n % 2 ^ 32) ∨
      n < 2 ^ 31 ∧ b.writerIndex + t + n ≤ vectorMaxSize
  | some moved, t, n => movedTo b (t + n) ≤ sizeAt b moved ∨
      n < 2 ^ 31 ∧ movedTo b (t + n) ≤ vectorMaxSize

/-- Where the content is moved first, with `n` more bytes behind `t`. -/
def movedBehind (b : Buffer) (moved : Option Nat) (t n : Nat) : Option Nat :=
  moved.or (if Moves b t n then some t else none)

/-- Strings of these lengths are all taken, behind `t` bytes. -/
def FitsAll (b : Buffer) (moved : Option Nat) (t : Nat) : List Nat → Prop
  | [] => True
  | n :: lengths => Fits b moved t n ∧ FitsAll b (movedBehind b moved t n) (t + n) lengths

/-- Where `t` bytes have taken the buffer `b`. -/
def Reached (b : Buffer) : Option Nat → Nat → Buffer → Prop
  | none, t, c => c.readerIndex = b.readerIndex ∧ c.writerIndex = b.writerIndex + t ∧
      c.buffer.length = sizeAt b t
  | some moved, t, c => c.readerIndex = kCheapPrepend ∧ c.writerIndex = movedTo b t ∧
      c.buffer.length = max (sizeAt b moved) (movedTo b t)

variable {b c d : Buffer} {moved : Option Nat} {t : Nat} {data : List UInt8}

theorem reached_refl (h : b.Valid) : Reached b none 0 b :=
  ⟨rfl, rfl, (Nat.max_eq_left h.bounded).symm⟩

theorem takes_iff_fits (hb : b.Valid) (hc : c.Valid) (h : Reached b moved t c) (n : Nat) :
    Takes c n ↔ Fits b moved t n := by
  have hbo := hb.ordered
  have hco := hc.ordered
  have hcb := hc.bounded
  have hcf := hc.fits
  have hweq := writableBytes_eq hc
  unfold Takes prependableBytes
  rw [hweq]
  cases moved with
  | none =>
    obtain ⟨hr, hw, hl⟩ := h
    unfold Fits Moves movedTo
    omega
  | some m =>
    obtain ⟨hr, hw, hl⟩ := h
    unfold Fits
    unfold movedTo at *
    omega

/-- `makeSpace_ok` with the reader index. -/
theorem makeSpace_indices {len : Int} (h : c.Ordered) (hd : c.makeSpace len = .ok d) :
    (c.needsResize len = true ∧ SizeT.add c.writerIndex (SizeT.ofInt len) ≤ vectorMaxSize ∧
      d.buffer.length = SizeT.add c.writerIndex (SizeT.ofInt len) ∧
      d.writerIndex = c.writerIndex ∧ d.readerIndex = c.readerIndex) ∨
    (c.needsResize len = false ∧ d.buffer.length = c.buffer.length ∧
      d.writerIndex = kCheapPrepend + (c.writerIndex - c.readerIndex) ∧
      d.readerIndex = kCheapPrepend) := by
  have hreader : (c.needsResize len = true ∧ d.readerIndex = c.readerIndex) ∨
      (c.needsResize len = false ∧ d.readerIndex = kCheapPrepend) := by
    have hm := hd
    unfold makeSpace at hm
    split at hm
    · rename_i hn
      obtain ⟨v, -, hm⟩ := bind_ok hm
      cases hm
      exact .inl ⟨hn, rfl⟩
    · rename_i hn
      obtain ⟨v, -, hm⟩ := bind_ok hm
      cases hm
      exact .inr ⟨by simpa using hn, rfl⟩
  rcases h.makeSpace_ok hd with ⟨hn, hmax, hl, hw⟩ | ⟨hn, hl, hw⟩
  · rw [hn] at hreader
    simp only [true_and, Bool.true_eq_false, false_and, or_false] at hreader
    exact .inl ⟨hn, hmax, hl, hw, hreader⟩
  · rw [hn] at hreader
    simp only [Bool.false_eq_true, false_and, true_and, false_or] at hreader
    rw [h.readableBytes_eq] at hw
    exact .inr ⟨hn, hl, hw, hreader⟩

/-- Where one string takes the indices: behind the content, or with a vector that has grown
by what was missing, or behind the content at the front. -/
theorem append_indices (h : c.Valid) (hd : c.append data = .ok d) :
    (d.readerIndex = c.readerIndex ∧ d.writerIndex = c.writerIndex + data.length ∧
      d.buffer.length = max c.buffer.length d.writerIndex ∧ ¬Moves c 0 data.length) ∨
    d.readerIndex = kCheapPrepend ∧ d.writerIndex = movedTo c data.length ∧
      d.buffer.length = c.buffer.length ∧ Moves c 0 data.length := by
  have hb := h.bounded
  have ho := h.ordered
  have hlen := length_lt h
  have hweq := writableBytes_eq h
  have hreq := readableBytes_eq h
  obtain ⟨e, he, hd⟩ := bind_ok hd
  obtain ⟨v, hv, hd⟩ := bind_ok hd
  cases hd
  have hin : e.writerIndex + data.length ≤ e.buffer.length := by
    unfold copyInto at hv
    split at hv
    · assumption
    · cases hv
  have hvl : v.length = e.buffer.length := by
    rw [copyInto_written hin] at hv
    cases hv
    exact written_length hin
  unfold Moves movedTo sizeAt
  dsimp only
  rw [hvl]
  unfold ensureWritableBytes at he
  split at he
  · rename_i hw
    have hsize := makeSpace_length h.toOrdered he
    have hadd : SizeT.add e.writerIndex data.length = e.writerIndex + data.length := by
      refine SizeT.add_exact ?_
      unfold vectorMaxSize at hsize
      omega
    rw [hadd]
    rcases makeSpace_indices h.toOrdered he with ⟨hn, hmax, hel, hew, her⟩ | ⟨hn, hel, hew, her⟩
    · have hlt := lt_of_resized h.toOrdered hmax (by omega)
      rw [needsResize_iff h hlt] at hn
      rw [SizeT.ofInt_toInt hlt, SizeT.add_exact (by omega)] at hel
      left
      omega
    · right
      omega
  · rename_i hw
    cases he
    rw [SizeT.add_exact (by omega)]
    left
    omega

/-- A string that is taken goes where its length says. -/
theorem reached_append (hb : b.Valid) (hc : c.Valid) (h : Reached b moved t c)
    (hd : c.append data = .ok d) :
    Reached b (movedBehind b moved t data.length) (t + data.length) d := by
  have hbo := hb.ordered
  have hcb := hc.bounded
  have hind := append_indices hc hd
  unfold Moves at hind
  cases moved with
  | none =>
    obtain ⟨hr, hw, hl⟩ := h
    by_cases hm : Moves b t data.length
    · rw [movedBehind, if_pos hm]
      change _ ∧ _ ∧ _
      unfold Moves at hm
      unfold sizeAt movedTo at *
      omega
    · rw [movedBehind, if_neg hm]
      change _ ∧ _ ∧ _
      unfold Moves at hm
      unfold sizeAt movedTo at *
      omega
  | some m =>
    obtain ⟨hr, hw, hl⟩ := h
    change _ ∧ _ ∧ _
    unfold sizeAt movedTo at *
    omega

/-- Short strings are taken as long as the vector can hold them. -/
theorem fitsAll_of_short (hb : b.Valid) {lengths : List Nat} (hshort : ∀ n ∈ lengths, n < 2 ^ 31)
    (hmax : b.writerIndex + t + lengths.sum + kCheapPrepend ≤ vectorMaxSize) :
    FitsAll b moved t lengths := by
  have ho := hb.ordered
  induction lengths generalizing moved t with
  | nil => trivial
  | cons n lengths ih =>
    have hn := hshort n List.mem_cons_self
    rw [List.sum_cons] at hmax
    refine ⟨?_, ih (fun m hm => hshort m (List.mem_cons_of_mem _ hm)) (by omega)⟩
    cases moved with
    | none => exact .inr (.inr ⟨hn, by omega⟩)
    | some m =>
      refine .inr ⟨hn, ?_⟩
      unfold movedTo
      omega

end RyanNetwork.Buffer.Series

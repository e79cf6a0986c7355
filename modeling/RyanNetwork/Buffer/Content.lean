import RyanNetwork.Lib.Outcome
import RyanNetwork.Buffer.Model

/-!
# The readable content and what each operation does to it

`Valid` is the index order of the class comment together with the room that
`RetrieveAll` needs. Each operation has one specification over `content`; the
callers below and in other modules use only these.
-/
namespace RyanNetwork

open Lib

set_option autoImplicit false

/-! ## Copies -/

theorem copyLoop_length (v : List UInt8) (src dst n : Nat) :
    (copyLoop v src dst n).length = v.length := by
  induction n generalizing v src dst with
  | zero => rfl
  | succ n ih => rw [copyLoop, ih, List.length_set]

/-- A copy towards the front reads every source byte before it is overwritten. -/
theorem copyLoop_getElem? (v : List UInt8) (src dst n i : Nat) (hd : dst ≤ src)
    (hs : src + n ≤ v.length) :
    (copyLoop v src dst n)[i]? = if dst ≤ i ∧ i < dst + n then v[src + (i - dst)]? else v[i]? := by
  induction n generalizing v src dst with
  | zero =>
    rw [copyLoop, if_neg (by omega)]
  | succ n ih =>
    have hlen : (v.set dst (v.getD src 0)).length = v.length := List.length_set
    rw [copyLoop, ih _ _ _ (by omega) (by omega)]
    by_cases hin : dst + 1 ≤ i ∧ i < dst + 1 + n
    · rw [if_pos hin, if_pos (by omega), List.getElem?_set_ne (by omega)]
      congr 1
      omega
    · rw [if_neg hin]
      by_cases hi : i = dst
      · subst hi
        rw [if_pos (by omega), List.getElem?_set_self (by omega), Nat.sub_self, Nat.add_zero,
          List.getD_eq_getElem?_getD, List.getElem?_eq_getElem (by omega), Option.getD_some]
      · rw [if_neg (by omega), List.getElem?_set_ne (by omega)]

theorem copyInto_outcome (v : List UInt8) (dst : Nat) (data : List UInt8)
    (h : dst + data.length ≤ v.length) :
    copyInto v dst data = .ok (v.take dst ++ data ++ v.drop (dst + data.length)) :=
  if_pos h

theorem beBytes_length (n x : Nat) : (beBytes n x).length = n := by
  induction n generalizing x with
  | zero => rfl
  | succ n ih => simp [beBytes, ih]

namespace Buffer

/-- The readable bytes, from the reader index to the writer index. -/
def content (b : Buffer) : List UInt8 :=
  (b.buffer.drop b.readerIndex).take (b.writerIndex - b.readerIndex)

structure Valid (b : Buffer) : Prop where
  ordered : b.readerIndex ≤ b.writerIndex
  bounded : b.writerIndex ≤ b.buffer.length
  header : kCheapPrepend ≤ b.buffer.length
  fits : b.buffer.length ≤ vectorMaxSize

/-- The order of the indices alone, with the limit of the vector. -/
structure Ordered (b : Buffer) : Prop where
  ordered : b.readerIndex ≤ b.writerIndex
  bounded : b.writerIndex ≤ b.buffer.length
  fits : b.buffer.length ≤ vectorMaxSize

theorem Valid.toOrdered {b : Buffer} (h : b.Valid) : b.Ordered := ⟨h.ordered, h.bounded, h.fits⟩

namespace Ordered

variable {b : Buffer} (h : b.Ordered)
include h

theorem length_lt : b.buffer.length < 2 ^ 63 := by
  have hf := h.fits
  unfold vectorMaxSize at hf
  omega

theorem readableBytes_eq : b.readableBytes = b.writerIndex - b.readerIndex :=
  SizeT.sub_exact h.ordered (by have hb := h.bounded; have hl := h.length_lt; omega)

theorem writableBytes_eq : b.writableBytes = b.buffer.length - b.writerIndex :=
  SizeT.sub_exact h.bounded (by have hl := h.length_lt; omega)

end Ordered

section Sizes

variable {b : Buffer} (h : b.Valid)
include h

theorem length_lt : b.buffer.length < 2 ^ 63 := h.toOrdered.length_lt

theorem readableBytes_eq : b.readableBytes = b.writerIndex - b.readerIndex :=
  h.toOrdered.readableBytes_eq

theorem writableBytes_eq : b.writableBytes = b.buffer.length - b.writerIndex :=
  h.toOrdered.writableBytes_eq

theorem content_length : b.content.length = b.readableBytes := by
  rw [readableBytes_eq h, content, List.length_take, List.length_drop]
  have hb := h.bounded
  omega

theorem content_eq_nil : b.content = [] ↔ b.readableBytes = 0 := by
  rw [← content_length h, List.length_eq_zero_iff]

end Sizes

/-- A buffer whose constructor sum does not wrap starts valid and empty. -/
theorem new_spec {initialSize : Nat} (hs : kCheapPrepend + initialSize < 2 ^ 64) {b : Buffer}
    (h : new initialSize = .ok b) : b.Valid ∧ b.content = [] := by
  obtain ⟨v, hv, hb⟩ := bind_ok h
  rw [SizeT.add_exact hs] at hv
  unfold vectorOfSize at hv
  split at hv
  · rename_i hle
    cases hv
    cases hb
    refine ⟨⟨le_refl _, ?_, ?_, ?_⟩, ?_⟩
    · simp
    · simp
    · simpa using hle
    · simp [content]
  · cases hv

theorem new_of_fits {initialSize : Nat} (h : kCheapPrepend + initialSize ≤ vectorMaxSize) :
    new initialSize =
      .ok ⟨List.replicate (kCheapPrepend + initialSize) 0, kCheapPrepend, kCheapPrepend⟩ := by
  have hlt : kCheapPrepend + initialSize < 2 ^ 64 := by
    unfold vectorMaxSize at h
    omega
  unfold new vectorOfSize
  rw [SizeT.add_exact hlt, if_pos h]
  rfl

theorem new_default : new kInitialSize = .ok ofDefaultSize := new_of_fits (by decide)

theorem ofDefaultSize_spec : ofDefaultSize.Valid ∧ ofDefaultSize.content = [] :=
  new_spec (by decide) new_default

/-! ## Retrieving -/

theorem retrieveAll_spec {b : Buffer} (h : b.Valid) :
    b.retrieveAll.Valid ∧ b.retrieveAll.content = [] := by
  refine ⟨⟨le_refl _, h.header, h.header, h.fits⟩, ?_⟩
  simp [content, retrieveAll]

theorem retrieve_spec {b : Buffer} (h : b.Valid) (len : Nat) :
    (b.retrieve len).Valid ∧ (b.retrieve len).content = b.content.drop len := by
  unfold retrieve
  split
  · rename_i hlt
    have hr := readableBytes_eq h
    have hb := h.bounded
    have hl := length_lt h
    have hadd : SizeT.add b.readerIndex len = b.readerIndex + len :=
      SizeT.add_exact (by omega)
    rw [hadd]
    refine ⟨⟨by change b.readerIndex + len ≤ b.writerIndex; omega, h.bounded, h.header, h.fits⟩, ?_⟩
    simp only [content]
    rw [List.drop_take, List.drop_drop]
    congr 1
    omega
  · rename_i hge
    refine ⟨(retrieveAll_spec h).1, ?_⟩
    rw [(retrieveAll_spec h).2, List.drop_eq_nil_of_le]
    rw [content_length h]
    omega

theorem peekString_spec {b : Buffer} (h : b.Valid) {len : Nat} (hl : len ≤ b.readableBytes) :
    b.peekString len = .ok (b.content.take len) := by
  have hr := readableBytes_eq h
  have ho := h.ordered
  have hb := h.bounded
  unfold peekString
  rw [if_pos (by omega), content, List.take_take, Nat.min_eq_left (by omega)]

theorem contentToString_spec {b : Buffer} (h : b.Valid) : b.contentToString = .ok b.content := by
  rw [contentToString, peekString_spec h (le_refl _), ← content_length h, List.take_length]

theorem retrieveAsString_spec {b : Buffer} (h : b.Valid) {len : Nat} (hl : len ≤ b.readableBytes) :
    b.retrieveAsString len = .ok (b.content.take len, b.retrieve len) := by
  rw [retrieveAsString, peekString_spec h hl]
  rfl

/-! ## Making room -/

/-- The buffer after `resize(n)` to a larger size. -/
def grown (b : Buffer) (n : Nat) : Buffer :=
  { b with buffer := b.buffer ++ List.replicate (n - b.buffer.length) 0 }

/-- The buffer after `MakeSpace` has moved the content to the reserved header. -/
def compacted (b : Buffer) : Buffer :=
  ⟨copyLoop b.buffer b.readerIndex kCheapPrepend (b.writerIndex - b.readerIndex),
    kCheapPrepend, kCheapPrepend + b.readableBytes⟩

theorem grown_length {b : Buffer} {n : Nat} (hn : b.buffer.length ≤ n) :
    (b.grown n).buffer.length = n := by
  simp [grown]
  omega

theorem compacted_length (b : Buffer) : b.compacted.buffer.length = b.buffer.length :=
  copyLoop_length ..

/-- The first branch of `MakeSpace`, when the vector does not shrink. -/
theorem makeSpace_grown {b : Buffer} {len : Int} (hn : b.needsResize len = true)
    (hge : b.buffer.length ≤ SizeT.add b.writerIndex (SizeT.ofInt len)) :
    Outcome (b.makeSpace len)
      (fun c => c = b.grown (SizeT.add b.writerIndex (SizeT.ofInt len)) ∧
        SizeT.add b.writerIndex (SizeT.ofInt len) ≤ vectorMaxSize)
      (fun e => e = .lengthError ∧
        vectorMaxSize < SizeT.add b.writerIndex (SizeT.ofInt len)) := by
  unfold makeSpace resize
  rw [if_pos hn]
  split
  · rename_i hmax
    refine Outcome.ok_bind (Outcome.ok ⟨?_, hmax⟩)
    rw [List.take_of_length_le hge]
    rfl
  · rename_i hmax
    exact Outcome.error ⟨rfl, Nat.lt_of_not_le hmax⟩

namespace Ordered

variable {b : Buffer} (h : b.Ordered)
include h

theorem needsResize_iff (len : Int) :
    b.needsResize len = true ↔
      b.writableBytes + b.readerIndex < SizeT.add (SizeT.ofInt len) kCheapPrepend := by
  have hlen := h.length_lt
  have hweq := h.writableBytes_eq
  have ho := h.ordered
  have hb := h.bounded
  unfold needsResize prependableBytes
  rw [SizeT.add_exact (a := b.writableBytes) (by omega), decide_eq_true_eq]

/-- Growing keeps both indices and appends zero bytes after the content. -/
theorem grown_spec {n : Nat} (hn : b.buffer.length ≤ n) (hmax : n ≤ vectorMaxSize) :
    (b.grown n).Ordered ∧ (b.grown n).content = b.content := by
  have ho := h.ordered
  have hb := h.bounded
  have hl := grown_length hn
  refine ⟨⟨ho, ?_, ?_⟩, ?_⟩
  · rw [hl]
    exact Nat.le_trans hb hn
  · rw [hl]
    exact hmax
  · simp only [content, grown]
    rw [List.drop_append_of_le_length (by omega), List.take_append_of_le_length]
    rw [List.length_drop]
    omega

/-- Moving the content down to the reserved header keeps it. -/
theorem compacted_spec (hr : kCheapPrepend ≤ b.readerIndex) :
    b.compacted.Ordered ∧ b.compacted.content = b.content := by
  have hreq := h.readableBytes_eq
  have ho := h.ordered
  have hb := h.bounded
  have hlc := compacted_length b
  constructor
  · refine ⟨Nat.le_add_right .., ?_, ?_⟩
    · rw [hlc]
      change kCheapPrepend + b.readableBytes ≤ _
      omega
    · rw [hlc]
      exact h.fits
  · apply List.ext_getElem?
    intro i
    simp only [content, compacted, List.getElem?_take, List.getElem?_drop]
    rw [copyLoop_getElem? b.buffer _ _ _ _ hr (by omega)]
    by_cases hi : i < b.writerIndex - b.readerIndex
    · rw [if_pos (by omega), if_pos hi, if_pos (by omega)]
      congr 1
      omega
    · rw [if_neg (by omega), if_neg hi]

/-- The second branch of `MakeSpace`, when the content moves towards the front. -/
theorem makeSpace_compacted {len : Int} (hn : b.needsResize len = false)
    (hr : kCheapPrepend ≤ b.readerIndex) : b.makeSpace len = .ok b.compacted := by
  have hreq := h.readableBytes_eq
  have ho := h.ordered
  have hb := h.bounded
  have hlen := h.length_lt
  have hsub : SizeT.sub b.writerIndex b.readerIndex = b.writerIndex - b.readerIndex := hreq
  have hadd : SizeT.add kCheapPrepend b.readableBytes = kCheapPrepend + b.readableBytes :=
    SizeT.add_exact (by unfold kCheapPrepend; omega)
  have hcopy : copyWithin b.buffer b.readerIndex kCheapPrepend (b.writerIndex - b.readerIndex) =
      .ok (copyLoop b.buffer b.readerIndex kCheapPrepend (b.writerIndex - b.readerIndex)) :=
    if_pos ⟨by omega, by omega⟩
  unfold makeSpace
  simp only [hn, hsub, hadd, hcopy]
  rfl

end Ordered

theorem needsResize_iff {b : Buffer} (h : b.Valid) {len : Nat} (hl : len < 2 ^ 31) :
    b.needsResize (SizeT.toInt len) = true ↔
      b.writableBytes + b.readerIndex < len + kCheapPrepend := by
  rw [h.toOrdered.needsResize_iff, SizeT.ofInt_toInt hl,
    SizeT.add_exact (by unfold kCheapPrepend; omega)]

/-- When `MakeSpace` moves the content down, its destination lies strictly before
its source: the room it found at the front exceeds the reserved header. -/
theorem compaction_moves_down {b : Buffer} (h : b.Valid) {len : Nat} (hl : len < 2 ^ 31)
    (hw : b.writableBytes < len) (hc : b.needsResize (SizeT.toInt len) = false) :
    kCheapPrepend < b.readerIndex := by
  have hn := (needsResize_iff h hl).not.mp (by rw [hc]; decide)
  omega

namespace Ordered

variable {b : Buffer} (h : b.Ordered)
include h

theorem makeSpace_spec {len : Nat} (hl : len < 2 ^ 31) (hw : b.writableBytes < len) :
    Outcome (b.makeSpace (SizeT.toInt len))
      (fun c => c.Ordered ∧ c.content = b.content ∧ len ≤ c.writableBytes ∧
        b.buffer.length ≤ c.buffer.length)
      (fun e => e = .lengthError ∧ vectorMaxSize < b.writerIndex + len) := by
  have hlen := h.length_lt
  have hweq := h.writableBytes_eq
  have hreq := h.readableBytes_eq
  have ho := h.ordered
  have hb := h.bounded
  have hcut : SizeT.add b.writerIndex (SizeT.ofInt (SizeT.toInt len)) = b.writerIndex + len := by
    rw [SizeT.ofInt_toInt hl, SizeT.add_exact (by omega)]
  have hge : b.buffer.length ≤ b.writerIndex + len := by omega
  cases hn : b.needsResize (SizeT.toInt len) with
  | true =>
    have hs := makeSpace_grown hn (by rw [hcut]; exact hge)
    rw [hcut] at hs
    refine ⟨fun hc => ?_, hs.of_error⟩
    obtain ⟨rfl, hmax⟩ := hs.of_ok hc
    obtain ⟨hord, hcont⟩ := h.grown_spec hge hmax
    have hgl := grown_length hge
    refine ⟨hord, hcont, ?_, by omega⟩
    rw [hord.writableBytes_eq, hgl]
    change len ≤ b.writerIndex + len - b.writerIndex
    omega
  | false =>
    have hroom := (h.needsResize_iff _).not.mp (by rw [hn]; decide)
    rw [SizeT.ofInt_toInt hl, SizeT.add_exact (by unfold kCheapPrepend; omega)] at hroom
    have hdown : kCheapPrepend ≤ b.readerIndex := by omega
    rw [h.makeSpace_compacted hn hdown]
    obtain ⟨hord, hcont⟩ := h.compacted_spec hdown
    have hcl := compacted_length b
    refine Outcome.ok ⟨hord, hcont, ?_, by omega⟩
    rw [hord.writableBytes_eq, hcl]
    change len ≤ b.buffer.length - (kCheapPrepend + b.readableBytes)
    omega

/-- What `MakeSpace` can do to a buffer whose indices are in order. -/
theorem makeSpace_ok {c : Buffer} {len : Int} (hc : b.makeSpace len = .ok c) :
    (b.needsResize len = true ∧
      SizeT.add b.writerIndex (SizeT.ofInt len) ≤ vectorMaxSize ∧
      c.buffer.length = SizeT.add b.writerIndex (SizeT.ofInt len) ∧
      c.writerIndex = b.writerIndex) ∨
    (b.needsResize len = false ∧ c.buffer.length = b.buffer.length ∧
      c.writerIndex = kCheapPrepend + b.readableBytes) := by
  have hlen := h.length_lt
  have hreq := h.readableBytes_eq
  have ho := h.ordered
  have hb := h.bounded
  unfold makeSpace at hc
  split at hc
  · rename_i hn
    obtain ⟨v, hv, hc⟩ := bind_ok hc
    cases hc
    unfold resize at hv
    split at hv
    · rename_i hmax
      cases hv
      refine Or.inl ⟨hn, hmax, ?_, rfl⟩
      simp only [List.length_append, List.length_take, List.length_replicate]
      omega
    · cases hv
  · rename_i hn
    obtain ⟨v, hv, hc⟩ := bind_ok hc
    cases hc
    unfold copyWithin at hv
    split at hv
    · cases hv
      refine Or.inr ⟨by simpa using hn, copyLoop_length .., ?_⟩
      exact SizeT.add_exact (by unfold kCheapPrepend; omega)
    · cases hv

/-- For a length of any size: where `MakeSpace` has left room for it, it has kept the
content. The truncation to `int` only ever leaves too little room. -/
theorem makeSpace_kept {c : Buffer} {len : Nat} (hw : b.writableBytes < len)
    (hc : b.makeSpace (SizeT.toInt len) = .ok c)
    (hroom : c.writerIndex + len ≤ c.buffer.length) :
    c.Ordered ∧ c.content = b.content ∧ b.buffer.length ≤ c.buffer.length := by
  have hweq := h.writableBytes_eq
  have hreq := h.readableBytes_eq
  have ho := h.ordered
  have hb := h.bounded
  rcases h.makeSpace_ok hc with ⟨hn, hmax, hcl, hcw⟩ | ⟨hn, hcl, hcw⟩
  · have hge : b.buffer.length ≤ SizeT.add b.writerIndex (SizeT.ofInt (SizeT.toInt len)) := by
      omega
    obtain ⟨rfl, -⟩ := (makeSpace_grown hn hge).of_ok hc
    obtain ⟨hord, hcont⟩ := h.grown_spec hge hmax
    exact ⟨hord, hcont, by omega⟩
  · have hdown : kCheapPrepend ≤ b.readerIndex := by omega
    rw [h.makeSpace_compacted hn hdown] at hc
    cases hc
    obtain ⟨hord, hcont⟩ := h.compacted_spec hdown
    exact ⟨hord, hcont, Nat.le_of_eq hcl.symm⟩

end Ordered

/-- A buffer that is no smaller than a valid one has room for the header. -/
theorem Ordered.valid_of_le {b c : Buffer} (hc : c.Ordered) (h : b.Valid)
    (hle : b.buffer.length ≤ c.buffer.length) : c.Valid :=
  ⟨hc.ordered, hc.bounded, Nat.le_trans h.header hle, hc.fits⟩

theorem makeSpace_spec {b : Buffer} (h : b.Valid) {len : Nat} (hl : len < 2 ^ 31)
    (hw : b.writableBytes < len) :
    Outcome (b.makeSpace (SizeT.toInt len))
      (fun c => c.Valid ∧ c.content = b.content ∧ len ≤ c.writableBytes) (· = .lengthError) := by
  have hs := h.toOrdered.makeSpace_spec hl hw
  refine ⟨fun hc => ?_, fun he => (hs.of_error he).1⟩
  obtain ⟨hord, hcont, hroom, hle⟩ := hs.of_ok hc
  exact ⟨hord.valid_of_le h hle, hcont, hroom⟩

theorem ensureWritableBytes_spec {b : Buffer} (h : b.Valid) {len : Nat} (hl : len < 2 ^ 31) :
    Outcome (b.ensureWritableBytes len)
      (fun c => c.Valid ∧ c.content = b.content ∧ len ≤ c.writableBytes) (· = .lengthError) := by
  unfold ensureWritableBytes
  split
  · rename_i hw
    exact makeSpace_spec h hl hw
  · rename_i hw
    exact Outcome.ok ⟨h, rfl, by omega⟩

/-! ## Appending and prepending -/

/-- The storage after `data` was copied to the writer index. -/
def written (b : Buffer) (data : List UInt8) : List UInt8 :=
  b.buffer.take b.writerIndex ++ data ++ b.buffer.drop (b.writerIndex + data.length)

theorem copyInto_written {b : Buffer} {data : List UInt8}
    (hin : b.writerIndex + data.length ≤ b.buffer.length) :
    copyInto b.buffer b.writerIndex data = .ok (b.written data) := if_pos hin

theorem written_length {b : Buffer} {data : List UInt8}
    (hin : b.writerIndex + data.length ≤ b.buffer.length) :
    (b.written data).length = b.buffer.length := by
  simp [written]
  omega

/-- Copying to the writer index and moving it appends to the content. -/
theorem written_spec {b : Buffer} (h : b.Valid) {data : List UInt8} {n : Nat}
    (hin : b.writerIndex + data.length ≤ b.buffer.length) (hn : n = b.writerIndex + data.length) :
    (Buffer.mk (b.written data) b.readerIndex n).Valid ∧
      (Buffer.mk (b.written data) b.readerIndex n).content = b.content ++ data := by
  subst hn
  have ho := h.ordered
  have hsize := written_length hin
  refine ⟨⟨?_, ?_, ?_, ?_⟩, ?_⟩
  · change b.readerIndex ≤ b.writerIndex + data.length
    omega
  · rw [hsize]
    exact hin
  · rw [hsize]
    exact h.header
  · rw [hsize]
    exact h.fits
  · simp only [content, written]
    rw [List.append_assoc, List.drop_append_of_le_length (by simp; omega), List.drop_take,
      show b.writerIndex + data.length - b.readerIndex =
        (b.writerIndex - b.readerIndex) + data.length by omega,
      List.take_append]
    have hl' : ((b.buffer.drop b.readerIndex).take (b.writerIndex - b.readerIndex)).length =
        b.writerIndex - b.readerIndex := by simp; omega
    rw [hl', List.take_of_length_le (by rw [hl']; omega), Nat.add_sub_cancel_left]
    simp

theorem append_spec {b : Buffer} (h : b.Valid) {data : List UInt8} (hl : data.length < 2 ^ 31) :
    Outcome (b.append data) (fun c => c.Valid ∧ c.content = b.content ++ data)
      (· = .lengthError) := by
  refine (ensureWritableBytes_spec h hl).bind ?_
  rintro c ⟨hc, hcc, hroom⟩
  have hb := hc.bounded
  have hlen := length_lt hc
  rw [writableBytes_eq hc] at hroom
  have hin : c.writerIndex + data.length ≤ c.buffer.length := by omega
  rw [copyInto_written hin, ← hcc]
  exact Outcome.ok_bind (Outcome.ok (written_spec hc hin (SizeT.add_exact (by omega))))

/-- An `Append` of any length that returns has appended all of it. -/
theorem append_ok {b c : Buffer} (h : b.Valid) {data : List UInt8} (hc : b.append data = .ok c) :
    c.Valid ∧ c.content = b.content ++ data := by
  obtain ⟨d, hd, hc⟩ := bind_ok hc
  obtain ⟨v, hv, hc⟩ := bind_ok hc
  cases hc
  have hin : d.writerIndex + data.length ≤ d.buffer.length := by
    unfold copyInto at hv
    split at hv
    · assumption
    · cases hv
  have hkept : d.Valid ∧ d.content = b.content := by
    unfold ensureWritableBytes at hd
    split at hd
    · rename_i hw
      obtain ⟨hord, hcont, hle⟩ := h.toOrdered.makeSpace_kept hw hd hin
      exact ⟨hord.valid_of_le h hle, hcont⟩
    · cases hd
      exact ⟨h, rfl⟩
  rw [copyInto_written hin] at hv
  cases hv
  have hlen := length_lt hkept.1
  rw [← hkept.2]
  exact written_spec hkept.1 hin (SizeT.add_exact (by omega))

/-- `ReadFd` appends what the kernel delivers, the part in the writable region and
the part in the stack buffer. -/
theorem readFd_spec {b : Buffer} (h : b.Valid) {data : List UInt8}
    (hl : data.length ≤ b.writableBytes + extrabufSize) :
    Outcome (b.readFd (.received data)) (fun c => c.Valid ∧ c.content = b.content ++ data)
      (· = .lengthError) := by
  have hb := h.bounded
  have hlen := length_lt h
  have hwr := writableBytes_eq h
  unfold readFd
  dsimp only
  split
  · have hin : b.writerIndex + data.length ≤ b.buffer.length := by omega
    rw [copyInto_written hin]
    exact Outcome.ok_bind (Outcome.ok (written_spec h hin (SizeT.add_exact (by omega))))
  · have htake : (data.take b.writableBytes).length = b.writableBytes := by
      rw [List.length_take]
      omega
    have hin : b.writerIndex + (data.take b.writableBytes).length ≤ b.buffer.length := by omega
    have hsize := written_length hin
    rw [copyInto_written hin]
    refine Outcome.ok_bind ?_
    obtain ⟨hv, hc⟩ := written_spec h hin (n := (b.written (data.take b.writableBytes)).length)
      (by omega)
    have hall : b.content ++ data = b.content ++ data.take b.writableBytes ++
        data.drop b.writableBytes := by
      rw [List.append_assoc, List.take_append_drop]
    rw [hall, ← hc]
    refine append_spec hv ?_
    unfold extrabufSize at hl
    rw [List.length_drop]
    omega

theorem appendInt_spec {b : Buffer} (h : b.Valid) {n : Nat} (hn : n < 2 ^ 31)
    (x : BitVec (8 * n)) :
    Outcome (appendInt n b x) (fun c => c.Valid ∧ c.content = b.content ++ beBytes n x.toNat)
      (· = .lengthError) :=
  append_spec h (by rw [beBytes_length]; exact hn)

theorem prepend_spec {b : Buffer} (h : b.Valid) {data : List UInt8}
    (hl : data.length ≤ b.prependableBytes) :
    Outcome (b.prepend data) (fun c => c.Valid ∧ c.content = data ++ b.content)
      (· = .lengthError) := by
  have hlen := length_lt h
  have ho := h.ordered
  have hb := h.bounded
  have hp : data.length ≤ b.readerIndex := hl
  have hcopy := copyInto_outcome b.buffer (b.readerIndex - data.length) data (by omega)
  rw [Nat.sub_add_cancel hp] at hcopy
  unfold prepend
  rw [if_pos hl, SizeT.sub_exact hp (by omega)]
  simp only [hcopy]
  refine Outcome.ok_bind (Outcome.ok ?_)
  have hsize : (b.buffer.take (b.readerIndex - data.length) ++ data ++
      b.buffer.drop b.readerIndex).length = b.buffer.length := by
    simp
    omega
  refine ⟨⟨?_, ?_, ?_, ?_⟩, ?_⟩
  · change b.readerIndex - data.length ≤ b.writerIndex
    omega
  · rw [hsize]
    exact hb
  · rw [hsize]
    exact h.header
  · rw [hsize]
    exact h.fits
  · have hpre : (b.buffer.take (b.readerIndex - data.length)).length =
        b.readerIndex - data.length := by simp; omega
    simp only [content]
    rw [List.append_assoc, List.drop_left' hpre,
      show b.writerIndex - (b.readerIndex - data.length) =
        data.length + (b.writerIndex - b.readerIndex) by omega, List.take_length_add_append]

theorem shrink_spec {b : Buffer} (h : b.Valid) {reserve : Nat}
    (hl : b.readableBytes + reserve < 2 ^ 31) :
    Outcome (b.shrink reserve) (fun c => c.Valid ∧ c.content = b.content) (· = .lengthError) := by
  obtain ⟨hc, hce⟩ := ofDefaultSize_spec
  unfold shrink
  rw [new_default, SizeT.add_exact (by omega)]
  refine Outcome.ok_bind ((ensureWritableBytes_spec hc hl).bind ?_)
  rintro d ⟨hd, hde, -⟩
  rw [contentToString_spec h]
  refine Outcome.ok_bind ((append_spec hd (by rw [content_length h]; omega)).bind ?_)
  rintro e ⟨he, hee⟩
  refine Outcome.ok ⟨he, ?_⟩
  change e.content = b.content
  rw [hee, hde, hce, List.nil_append]

end Buffer

end RyanNetwork

import Mathlib.Algebra.Group.Nat.Defs
import RyanNetwork.Buffer.Content

/-!
# `EnsureWritableBytes` at every length

`MakeSpace` takes its length as an `int`. A length from `2^31` on arrives there
with its low 32 bits only, or as a negative number that the sums with `size_t`
turn into a huge one. Room is left all the same where the length fits into the
writable part already, and where the content need only be moved and the test of
`MakeSpace` says so.
-/
namespace RyanNetwork.Buffer.Growth

open Lib

set_option autoImplicit false

/-- What `EnsureWritableBytes(len)` promises, and `Append` of as many bytes with it. -/
structure KeepsPromise (b : Buffer) (len : Nat) : Prop where
  ensures : ∃ c, b.ensureWritableBytes len = .ok c ∧ len ≤ c.writableBytes ∧
    c.writerIndex ≤ c.buffer.length ∧ c.content = b.content
  inBounds : ∀ data : List UInt8, data.length = len → b.append data ≠ .error .outOfBounds

/-- Whether the length reaches `MakeSpace` unharmed or its test leads to the right
branch: the low 32 bits are no negative number, or one whose sum with
`kCheapPrepend` wraps around to a small one. -/
def FitsInt (b : Buffer) (len : Nat) : Prop :=
  len < 2 ^ 31 ∨
    len + kCheapPrepend ≤ b.writableBytes + b.prependableBytes ∧
      (len % 2 ^ 32 < 2 ^ 31 ∨ 2 ^ 32 - kCheapPrepend ≤ len % 2 ^ 32)

instance (b : Buffer) (len : Nat) : Decidable (FitsInt b len) :=
  inferInstanceAs (Decidable (_ ∨ _ ∧ (_ ∨ _)))

variable {b : Buffer} {len : Nat}

/-- `MakeSpace` finds the room that is there: the truncated length is no larger. -/
theorem needsResize_false (h : b.Ordered)
    (hroom : len + kCheapPrepend ≤ b.writableBytes + b.prependableBytes)
    (hint : len % 2 ^ 32 < 2 ^ 31 ∨ 2 ^ 32 - kCheapPrepend ≤ len % 2 ^ 32) :
    b.needsResize (SizeT.toInt len) = false := by
  have hcut := SizeT.ofInt_toInt_cases len
  have hmod := Nat.mod_le len (2 ^ 32)
  rw [← Bool.not_eq_true, h.needsResize_iff]
  unfold prependableBytes at hroom
  unfold SizeT.add
  unfold kCheapPrepend at hroom hint ⊢
  omega

/-- The room that a length has found in the vector as it is. -/
theorem room_of_needsResize_false (h : b.Ordered)
    (hn : b.needsResize (SizeT.toInt len) = false) :
    len % 2 ^ 32 < 2 ^ 31 ∨ 2 ^ 32 - kCheapPrepend ≤ len % 2 ^ 32 := by
  have hlen := h.length_lt
  have hweq := h.writableBytes_eq
  have ho := h.ordered
  have hb := h.bounded
  have hcut := SizeT.ofInt_toInt_cases len
  rw [← Bool.not_eq_true, h.needsResize_iff] at hn
  unfold SizeT.add at hn
  unfold kCheapPrepend at hn ⊢
  omega

/-- Only a length that was not truncated makes the vector grow by as much. -/
theorem lt_of_resized (h : b.Ordered)
    (hmax : SizeT.add b.writerIndex (SizeT.ofInt (SizeT.toInt len)) ≤ vectorMaxSize)
    (hroom : b.writerIndex + len ≤ SizeT.add b.writerIndex (SizeT.ofInt (SizeT.toInt len))) :
    len < 2 ^ 31 := by
  have hlen := h.length_lt
  have hb := h.bounded
  have hcut := SizeT.ofInt_toInt_cases len
  unfold SizeT.add vectorMaxSize at *
  omega

/-- Where `MakeSpace` has left the room, the length fitted its `int`. -/
theorem fitsInt_of_room {c : Buffer} (h : b.Ordered)
    (hc : b.makeSpace (SizeT.toInt len) = .ok c)
    (hroom : c.writerIndex + len ≤ c.buffer.length) : FitsInt b len := by
  have hweq := h.writableBytes_eq
  have hreq := h.readableBytes_eq
  have ho := h.ordered
  have hb := h.bounded
  rcases h.makeSpace_ok hc with ⟨-, hmax, hcl, hcw⟩ | ⟨hn, hcl, hcw⟩
  · rw [hcl, hcw] at hroom
    exact Or.inl (lt_of_resized h hmax hroom)
  · refine Or.inr ⟨?_, room_of_needsResize_false h hn⟩
    unfold prependableBytes
    omega

theorem makeSpace_length {c : Buffer} (h : b.Ordered)
    (hc : b.makeSpace (SizeT.toInt len) = .ok c) : c.buffer.length ≤ vectorMaxSize := by
  have hf := h.fits
  rcases h.makeSpace_ok hc with ⟨-, hmax, hcl, -⟩ | ⟨-, hcl, -⟩
  · omega
  · omega

/-- Content that need only be moved is moved, and the length finds its room behind it. -/
theorem makeSpace_moves (h : b.Ordered) (hw : b.writableBytes < len)
    (hroom : len + kCheapPrepend ≤ b.writableBytes + b.prependableBytes)
    (hint : len % 2 ^ 32 < 2 ^ 31 ∨ 2 ^ 32 - kCheapPrepend ≤ len % 2 ^ 32) :
    ∃ c, b.makeSpace (SizeT.toInt len) = .ok c ∧ c.Ordered ∧ len ≤ c.writableBytes ∧
      c.content = b.content := by
  have hn := needsResize_false h hroom hint
  have hweq := h.writableBytes_eq
  have hreq := h.readableBytes_eq
  have ho := h.ordered
  have hb := h.bounded
  unfold prependableBytes at hroom
  have hdown : kCheapPrepend ≤ b.readerIndex := by omega
  obtain ⟨hord, hcont⟩ := h.compacted_spec hdown
  refine ⟨_, h.makeSpace_compacted hn hdown, hord, ?_, hcont⟩
  rw [hord.writableBytes_eq, compacted_length]
  change len ≤ b.buffer.length - (kCheapPrepend + b.readableBytes)
  omega

/-- A length that fits finds its room, and the content is kept. -/
theorem makeSpace_fits (h : b.Ordered) (hmax : b.writerIndex + len ≤ vectorMaxSize)
    (hw : b.writableBytes < len) (hf : FitsInt b len) :
    ∃ c, b.makeSpace (SizeT.toInt len) = .ok c ∧ c.Ordered ∧ len ≤ c.writableBytes ∧
      c.content = b.content := by
  rcases hf with hl | ⟨hroom, hint⟩
  · have hs := h.makeSpace_spec hl hw
    cases hc : b.makeSpace (SizeT.toInt len) with
    | ok c =>
      obtain ⟨hord, hcont, hle, -⟩ := hs.of_ok hc
      exact ⟨c, rfl, hord, hle, hcont⟩
    | error e =>
      have hgt := (hs.of_error hc).2
      omega
  · exact makeSpace_moves h hw hroom hint

/-- With the room there, the copy of `Append` stays inside the vector. -/
theorem append_inBounds {c : Buffer} {data : List UInt8} (hc : c.Ordered)
    (hens : b.ensureWritableBytes data.length = .ok c) (hroom : data.length ≤ c.writableBytes) :
    b.append data ≠ .error .outOfBounds := by
  have hb := hc.bounded
  rw [hc.writableBytes_eq] at hroom
  unfold append
  rw [hens]
  change (copyInto c.buffer c.writerIndex data >>= _) ≠ _
  rw [copyInto_written (by omega)]
  exact fun he => by cases he

/-- Without the room, the copy leaves the vector. -/
theorem append_overrun {c : Buffer} {data : List UInt8}
    (hens : b.ensureWritableBytes data.length = .ok c)
    (hover : ¬c.writerIndex + data.length ≤ c.buffer.length) :
    b.append data = .error .outOfBounds := by
  unfold append
  rw [hens]
  change (copyInto c.buffer c.writerIndex data >>= _) = _
  rw [copyInto, if_neg hover]
  rfl

theorem ensureWritableBytes_fits (h : b.Ordered) (hmax : b.writerIndex + len ≤ vectorMaxSize)
    (hf : len ≤ b.writableBytes ∨ FitsInt b len) :
    ∃ c, b.ensureWritableBytes len = .ok c ∧ c.Ordered ∧ len ≤ c.writableBytes ∧
      c.content = b.content := by
  unfold ensureWritableBytes
  split
  · rename_i hw
    exact makeSpace_fits h hmax hw (hf.resolve_left (by omega))
  · rename_i hw
    exact ⟨b, rfl, h, by omega, rfl⟩

/-- For every buffer whose indices are in order and every length that the vector could
hold, `EnsureWritableBytes` leaves the room, keeps the content, and `Append` copies inside
the vector, if and only if the length fits the writable part or survives the `int` of
`MakeSpace`. -/
theorem ensureWritableBytes_keeps_iff (b : Buffer) (len : Nat)
    (hordered : b.readerIndex ≤ b.writerIndex) (hbounded : b.writerIndex ≤ b.buffer.length)
    (hfits : b.buffer.length ≤ vectorMaxSize) (hmax : b.writerIndex + len ≤ vectorMaxSize) :
    KeepsPromise b len ↔ len ≤ b.writableBytes ∨ FitsInt b len := by
  have h : b.Ordered := ⟨hordered, hbounded, hfits⟩
  constructor
  · rintro ⟨⟨c, hens, hroom, hcb, -⟩, -⟩
    unfold ensureWritableBytes at hens
    split at hens
    · rename_i hw
      have hsize := makeSpace_length h hens
      unfold vectorMaxSize at hsize
      rw [writableBytes, SizeT.sub_exact hcb (by omega)] at hroom
      exact Or.inr (fitsInt_of_room h hens (by omega))
    · rename_i hw
      exact Or.inl (by omega)
  · intro hf
    obtain ⟨c, hens, hc, hroom, hcont⟩ := ensureWritableBytes_fits h hmax hf
    refine ⟨⟨c, hens, hroom, hc.bounded, hcont⟩, ?_⟩
    rintro data rfl
    exact append_inBounds hc hens hroom

/-- The buffer that every connection starts with takes three thousand bytes. -/
theorem default_buffer_takes_three_thousand :
    KeepsPromise Buffer.ofDefaultSize 3000 := by
  have hv := ofDefaultSize_spec.1
  exact (ensureWritableBytes_keeps_iff ofDefaultSize 3000 hv.ordered hv.bounded hv.fits
    (by decide)).mpr (Or.inr (Or.inl (by decide)))

/-- `MakeSpace(0)` of the buffer that every connection starts with. -/
theorem default_buffer_not_grown :
    ofDefaultSize.ensureWritableBytes (2 ^ 32) = .ok ofDefaultSize.compacted := by
  have hw : ofDefaultSize.writableBytes < 2 ^ 32 := by decide +kernel
  have hn : ofDefaultSize.needsResize (SizeT.toInt (2 ^ 32)) = false := by decide +kernel
  unfold ensureWritableBytes
  rw [if_pos hw]
  exact ofDefaultSize_spec.1.toOrdered.makeSpace_compacted hn (Nat.le_refl _)

/-- `2^32` becomes the `int` zero: the vector keeps its thousand bytes, and `Append`
copies past its end. -/
theorem four_gigabytes_copied_past_the_end :
    ofDefaultSize.writerIndex + 2 ^ 32 ≤ vectorMaxSize ∧
      ofDefaultSize.ensureWritableBytes (2 ^ 32) = .ok ofDefaultSize.compacted ∧
      ofDefaultSize.compacted.writableBytes = 1024 ∧
      ofDefaultSize.append (List.replicate (2 ^ 32) 0) = .error .outOfBounds ∧
      ¬KeepsPromise ofDefaultSize (2 ^ 32) := by
  have hens := default_buffer_not_grown
  have happ (data : List UInt8) (hd : data.length = 2 ^ 32) :
      ofDefaultSize.append data = .error .outOfBounds := by
    apply append_overrun (c := ofDefaultSize.compacted)
    · rw [hd]
      exact hens
    · rw [hd]
      decide +kernel
  refine ⟨by decide, hens, by decide +kernel, happ _ List.length_replicate, ?_⟩
  intro hk
  exact hk.inBounds (List.replicate (2 ^ 32) 0) List.length_replicate (happ _ List.length_replicate)

/-! ## When `Append` returns -/

/-- The lengths that `Append` takes: there is room already, or the content can be moved and
the `int` of `MakeSpace` says so, or the vector can grow and the `int` holds the length. -/
def Takes (b : Buffer) (len : Nat) : Prop :=
  len ≤ b.writableBytes ∨
    len + kCheapPrepend ≤ b.writableBytes + b.prependableBytes ∧
      (len % 2 ^ 32 < 2 ^ 31 ∨ 2 ^ 32 - kCheapPrepend ≤ len % 2 ^ 32) ∨
    len < 2 ^ 31 ∧ b.writerIndex + len ≤ vectorMaxSize

instance (b : Buffer) (len : Nat) : Decidable (Takes b len) :=
  inferInstanceAs (Decidable (_ ∨ _ ∧ (_ ∨ _) ∨ _ ∧ _))

/-- Making room never moves the writer index up. -/
theorem makeSpace_writerIndex_le {c : Buffer} (h : b.Ordered) (hw : b.writableBytes < len)
    (hc : b.makeSpace (SizeT.toInt len) = .ok c)
    (hroom : c.writerIndex + len ≤ c.buffer.length) : c.writerIndex ≤ b.writerIndex := by
  have hweq := h.writableBytes_eq
  have hb := h.bounded
  rcases h.makeSpace_ok hc with ⟨-, -, -, hcw⟩ | ⟨-, hcl, hcw⟩
  · exact Nat.le_of_eq hcw
  · omega

theorem ensureWritableBytes_takes (h : b.Ordered) (ht : Takes b len) :
    ∃ c, b.ensureWritableBytes len = .ok c ∧ c.writerIndex + len ≤ c.buffer.length ∧
      c.writerIndex ≤ b.writerIndex := by
  have hweq := h.writableBytes_eq
  have hb := h.bounded
  unfold ensureWritableBytes
  split
  · rename_i hw
    have hmade : ∃ c, b.makeSpace (SizeT.toInt len) = .ok c ∧ c.Ordered ∧
        len ≤ c.writableBytes ∧ c.content = b.content := by
      rcases ht with hle | ⟨hroom, hint⟩ | ⟨hl, hmax⟩
      · omega
      · exact makeSpace_moves h hw hroom hint
      · exact makeSpace_fits h hmax hw (Or.inl hl)
    obtain ⟨c, hc, hord, hle, -⟩ := hmade
    have hcb := hord.bounded
    rw [hord.writableBytes_eq] at hle
    have hroom : c.writerIndex + len ≤ c.buffer.length := by omega
    exact ⟨c, hc, hroom, makeSpace_writerIndex_le h hw hc hroom⟩
  · rename_i hw
    exact ⟨b, rfl, by omega, Nat.le_refl _⟩

/-- An `Append` of a length that the buffer takes returns. -/
theorem append_of_takes {data : List UInt8} (h : b.Valid) (ht : Takes b data.length) :
    ∃ c, b.append data = .ok c ∧ c.writerIndex ≤ b.writerIndex + data.length := by
  obtain ⟨c, hc, hroom, hle⟩ := ensureWritableBytes_takes h.toOrdered ht
  refine ⟨⟨c.written data, c.readerIndex, SizeT.add c.writerIndex data.length⟩, ?_, ?_⟩
  · unfold append
    rw [hc]
    change (copyInto c.buffer c.writerIndex data >>= _) = _
    rw [copyInto_written hroom]
    rfl
  · have hadd : SizeT.add c.writerIndex data.length ≤ c.writerIndex + data.length := by
      unfold SizeT.add
      exact Nat.mod_le _ _
    exact Nat.le_trans hadd (Nat.add_le_add_right hle _)

/-- An `Append` that returns was of a length that the buffer takes. -/
theorem takes_of_append {c : Buffer} {data : List UInt8} (h : b.Valid)
    (hc : b.append data = .ok c) : Takes b data.length := by
  have ho := h.ordered
  have hb := h.bounded
  have hweq := writableBytes_eq h
  have hreq := readableBytes_eq h
  obtain ⟨d, hd, hc⟩ := bind_ok hc
  obtain ⟨v, hv, -⟩ := bind_ok hc
  have hin : d.writerIndex + data.length ≤ d.buffer.length := by
    unfold copyInto at hv
    split at hv
    · assumption
    · cases hv
  unfold ensureWritableBytes at hd
  split at hd
  · rcases h.toOrdered.makeSpace_ok hd with ⟨-, hmax, hcl, hcw⟩ | ⟨hn, hcl, hcw⟩
    · rw [hcl, hcw] at hin
      exact Or.inr (Or.inr ⟨lt_of_resized h.toOrdered hmax hin, Nat.le_trans hin hmax⟩)
    · refine Or.inr (Or.inl ⟨?_, room_of_needsResize_false h.toOrdered hn⟩)
      unfold prependableBytes
      omega
  · rename_i hw
    exact Or.inl (by omega)

end RyanNetwork.Buffer.Growth

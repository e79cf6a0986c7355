import RyanNetwork.Buffer.FixedBuffer
import RyanNetwork.Lib.Outcome
import Mathlib.Algebra.Group.Int.Defs
import Mathlib.Algebra.Group.Nat.Defs

/-!
# `LogStream`

The insertions into the stream of one log record. Numbers and pointers are formatted in
place, behind `Current()`, and then taken over with `Add`; everything else goes through
`Append`. No insertion fills the last byte of the buffer.
-/
namespace RyanNetwork.Logger

open Lib

set_option autoImplicit false

def kSmallBuffer : Nat := 4000

def kMaxNumericSize : Nat := 48

/-- `outOfBounds`: a write behind the buffer. `noReturn`: the end of a function that has
to return a value. -/
inductive StreamFault where
  | outOfBounds
  | noReturn
  deriving DecidableEq, Repr

def chars (s : String) : List UInt8 := s.toList.map fun c => c.toNat.toUInt8

/-! ## Formatting -/

/-- The digits around `zero`, for the remainders from -9 to 9. -/
def digits : List UInt8 := chars "9876543210123456789"

/-- The loop of `FormatInteger`, which needs fewer turns than `turns`. -/
def decimalLoop : Nat → Int → List UInt8
  | 0, _ => []
  | turns + 1, num =>
    digits.getD (9 + num.tmod 10).toNat 0 ::
      if num.tdiv 10 = 0 then [] else decimalLoop turns (num.tdiv 10)

/-- What `FormatInteger` leaves at `Current()`. -/
def formatInteger (num : Int) : List UInt8 :=
  (decimalLoop (num.natAbs + 1) num ++ if num < 0 then chars "-" else []).reverse

/-- The loop of `ConvertHex`. -/
def hexLoop : Nat → Nat → List UInt8
  | 0, _ => []
  | turns + 1, i =>
    (chars "0123456789ABCDEF").getD (i % 16) 0 :: if i / 16 = 0 then [] else hexLoop turns (i / 16)

def convertHex (value : Nat) : List UInt8 := (hexLoop (value + 1) value).reverse

example : formatInteger (-120) = chars "-120" ∧ convertHex 48879 = chars "BEEF" := by decide

/-- A 64-bit integer has at most 20 digits. -/
theorem decimalLoop_length {k : Nat} (turns : Nat) (num : Int) (h : num.natAbs < 10 ^ (k + 1)) :
    (decimalLoop turns num).length ≤ k + 1 := by
  induction turns generalizing k num with
  | zero => exact Nat.zero_le _
  | succ turns ih =>
    rw [decimalLoop, List.length_cons]
    split
    · exact Nat.succ_le_succ (Nat.zero_le _)
    · rename_i hne
      have hdiv : (num.tdiv 10).natAbs = num.natAbs / 10 := Int.natAbs_tdiv num 10
      have hpos : (num.tdiv 10).natAbs ≠ 0 := Int.natAbs_ne_zero.mpr hne
      cases k with
      | zero => omega
      | succ k =>
        have hlt : (num.tdiv 10).natAbs < 10 ^ (k + 1) := by
          rw [pow_succ] at h
          omega
        exact Nat.succ_le_succ (ih _ hlt)

theorem hexLoop_length {k : Nat} (turns i : Nat) (h : i < 16 ^ (k + 1)) :
    (hexLoop turns i).length ≤ k + 1 := by
  induction turns generalizing k i with
  | zero => exact Nat.zero_le _
  | succ turns ih =>
    rw [hexLoop, List.length_cons]
    split
    · exact Nat.succ_le_succ (Nat.zero_le _)
    · rename_i hne
      cases k with
      | zero => omega
      | succ k =>
        have hlt : i / 16 < 16 ^ (k + 1) := by
          rw [pow_succ] at h
          omega
        exact Nat.succ_le_succ (ih _ hlt)

theorem formatInteger_length {num : Int} (h : num.natAbs < 2 ^ 64) :
    (formatInteger num).length ≤ 21 := by
  have hloop : (decimalLoop (num.natAbs + 1) num).length ≤ 20 :=
    decimalLoop_length (k := 19) _ _ (Nat.lt_trans h (by decide))
  rw [formatInteger, List.length_reverse, List.length_append]
  split
  · have hone : (chars "-").length = 1 := rfl
    omega
  · rw [List.length_nil]
    omega

theorem convertHex_length (value : UInt64) : (convertHex value.toNat).length ≤ 16 := by
  rw [convertHex, List.length_reverse]
  exact hexLoop_length (k := 15) _ _ value.toNat_lt

/-! ## Insertions -/

/-- The values of the integer types, up to 64 bits. -/
abbrev Integer := { num : Int // -2 ^ 63 ≤ num ∧ num < 2 ^ 64 }

/-- What `snprintf` writes for `"%.12g"` into `kMaxNumericSize` bytes. -/
abbrev Formatted := { text : List UInt8 // text.length < kMaxNumericSize }

/-- The arguments of `operator<<`. A `const char*` is a null pointer or the bytes in front
of its terminator, a `GeneralTemplate` the `len_` bytes at its `data_`. -/
inductive Insertion where
  | integer (num : Integer)
  | double (text : Formatted)
  | char (c : UInt8)
  | pointer (value : UInt64)
  | str (s : Option (List UInt8))
  | string (s : List UInt8)
  | buffer (buf : FixedBuffer kSmallBuffer)
  | general (data : List UInt8)

/-- The characters that an insertion stands for. -/
def Insertion.text : Insertion → List UInt8
  | .integer num => formatInteger num.1
  | .double text => text.1
  | .char c => [c]
  | .pointer value => chars "0x" ++ convertHex value.toNat
  | .str s => s.getD (chars "(null)")
  | .string s => s
  | .buffer buf => buf.toString
  | .general data => data

/-- The text with its terminator is written behind `Current()`, then the text is added. -/
def addFormatted (b : FixedBuffer kSmallBuffer) (text : List UInt8) :
    Except StreamFault (FixedBuffer kSmallBuffer) :=
  match (b.store (text ++ [0])).bind (·.add text.length) with
  | some b => .ok b
  | none => .error .outOfBounds

/-- `operator<<`. The overload for `double` returns only where it has room. -/
def insert (b : FixedBuffer kSmallBuffer) (i : Insertion) :
    Except StreamFault (FixedBuffer kSmallBuffer) :=
  match i with
  | .integer _ => if kMaxNumericSize ≤ b.avail then addFormatted b i.text else .ok b
  | .pointer _ => if kMaxNumericSize ≤ b.avail then addFormatted b i.text else .ok b
  | .double _ =>
    if kMaxNumericSize ≤ b.avail then addFormatted b i.text else .error .noReturn
  | .char _ => .ok (b.append i.text)
  | .str _ => .ok (b.append i.text)
  | .string _ => .ok (b.append i.text)
  | .buffer _ => .ok (b.append i.text)
  | .general _ => .ok (b.append i.text)

/-- Whether the overload takes the room that is left. -/
def Insertion.fits (b : FixedBuffer kSmallBuffer) (i : Insertion) : Bool :=
  match i with
  | .integer _ => kMaxNumericSize ≤ b.avail
  | .pointer _ => kMaxNumericSize ≤ b.avail
  | .double _ => kMaxNumericSize ≤ b.avail
  | .char _ => i.text.length < b.avail
  | .str _ => i.text.length < b.avail
  | .string _ => i.text.length < b.avail
  | .buffer _ => i.text.length < b.avail
  | .general _ => i.text.length < b.avail

/-- The bytes of an insertion that enter the buffer: all or none. -/
def Insertion.accepted (b : FixedBuffer kSmallBuffer) (i : Insertion) : List UInt8 :=
  if i.fits b then i.text else []

def insertAll (b : FixedBuffer kSmallBuffer) :
    List Insertion → Except StreamFault (FixedBuffer kSmallBuffer)
  | [] => .ok b
  | i :: is => do
    let b ← insert b i
    insertAll b is

/-- The bytes that a sequence of insertions brings into the buffer. -/
def inserted (b : FixedBuffer kSmallBuffer) : List Insertion → List UInt8
  | [] => []
  | i :: is =>
    match insert b i with
    | .ok b' => i.accepted b ++ inserted b' is
    | .error _ => []

/-! ## What an insertion does -/

theorem addFormatted_ok {b b' : FixedBuffer kSmallBuffer} {text : List UInt8}
    (h : addFormatted b text = .ok b') :
    b'.payload = b.payload ++ text ∧ b'.avail = b.avail - text.length := by
  unfold addFormatted at h
  split at h
  · rename_i c hc
    cases h
    obtain ⟨stored, hs, ha⟩ := Option.bind_eq_some_iff.mp hc
    have hat : stored.curr = b.curr ∧ (stored.data.drop stored.curr).take text.length = text :=
      FixedBuffer.store_at_current hs
    refine ⟨?_, ?_⟩
    · rw [FixedBuffer.payload_add ha, FixedBuffer.payload_store hs, hat.2]
    · rw [FixedBuffer.avail_add ha, FixedBuffer.avail, hat.1, FixedBuffer.avail]
  · cases h

theorem addFormatted_of_room {b : FixedBuffer kSmallBuffer} {text : List UInt8}
    (h : text.length < b.avail) : ∃ b', addFormatted b text = .ok b' := by
  have hstore : (text ++ [0]).length ≤ b.avail := by
    rw [List.length_append, List.length_singleton]
    exact h
  obtain ⟨stored, hs, havail⟩ := FixedBuffer.store_of_room hstore
  obtain ⟨b', ha⟩ := FixedBuffer.add_of_room (b := stored) (Nat.le_of_lt (havail ▸ h))
  refine ⟨b', ?_⟩
  unfold addFormatted
  rw [hs, Option.bind_some, ha]

theorem integer_text_length (num : Integer) :
    (Insertion.integer num).text.length < kMaxNumericSize := by
  have hnum := num.2
  have hlen := formatInteger_length (by omega : num.1.natAbs < 2 ^ 64)
  exact Nat.lt_of_le_of_lt hlen (by decide)

theorem pointer_text_length (value : UInt64) :
    (Insertion.pointer value).text.length < kMaxNumericSize := by
  have hlen := convertHex_length value
  rw [Insertion.text, List.length_append]
  exact Nat.lt_of_le_of_lt (Nat.add_le_add_left hlen _) (by decide)

/-- The two kinds of overloads: through `Append`, or formatted in place. -/
theorem insert_cases {b b' : FixedBuffer kSmallBuffer} {i : Insertion}
    (h : insert b i = .ok b') :
    (i.fits b = decide (i.text.length < b.avail) ∧ b' = b.append i.text) ∨
      i.text.length < kMaxNumericSize ∧ i.fits b = decide (kMaxNumericSize ≤ b.avail) ∧
        (kMaxNumericSize ≤ b.avail → addFormatted b i.text = .ok b') ∧
        (¬kMaxNumericSize ≤ b.avail → b' = b) := by
  have happend (ha : i.fits b = decide (i.text.length < b.avail))
      (hb : Except.ok (b.append i.text) = Except.ok (ε := StreamFault) b') :
      i.fits b = decide (i.text.length < b.avail) ∧ b' = b.append i.text :=
    ⟨ha, (Except.ok.inj hb).symm⟩
  cases i with
  | integer num =>
    refine Or.inr ⟨integer_text_length num, rfl, fun hroom => ?_, fun hroom => ?_⟩
    · simpa only [insert, if_pos hroom] using h
    · rw [insert, if_neg hroom] at h
      exact (Except.ok.inj h).symm
  | pointer value =>
    refine Or.inr ⟨pointer_text_length value, rfl, fun hroom => ?_, fun hroom => ?_⟩
    · simpa only [insert, if_pos hroom] using h
    · rw [insert, if_neg hroom] at h
      exact (Except.ok.inj h).symm
  | double text =>
    refine Or.inr ⟨text.2, rfl, fun hroom => ?_, fun hroom => ?_⟩
    · simpa only [insert, if_pos hroom] using h
    · rw [insert, if_neg hroom] at h
      cases h
  | char c => exact Or.inl (happend rfl h)
  | str s => exact Or.inl (happend rfl h)
  | string s => exact Or.inl (happend rfl h)
  | buffer buf => exact Or.inl (happend rfl h)
  | general data => exact Or.inl (happend rfl h)

/-- Every overload but the one for `double` returns, whatever room there is. -/
theorem insert_returns (b : FixedBuffer kSmallBuffer) {i : Insertion}
    (hi : ∀ text, i ≠ .double text) : ∃ b', insert b i = .ok b' := by
  cases i with
  | integer num =>
    rw [insert]
    split
    · rename_i hroom
      exact addFormatted_of_room (Nat.lt_of_lt_of_le (integer_text_length num) hroom)
    · exact ⟨b, rfl⟩
  | pointer value =>
    rw [insert]
    split
    · rename_i hroom
      exact addFormatted_of_room (Nat.lt_of_lt_of_le (pointer_text_length value) hroom)
    · exact ⟨b, rfl⟩
  | double text => exact absurd rfl (hi text)
  | char c => exact ⟨_, rfl⟩
  | str s => exact ⟨_, rfl⟩
  | string s => exact ⟨_, rfl⟩
  | buffer buf => exact ⟨_, rfl⟩
  | general data => exact ⟨_, rfl⟩

/-- An insertion adds its text or nothing, and leaves the last byte free. -/
theorem insert_spec {b b' : FixedBuffer kSmallBuffer} {i : Insertion}
    (h : insert b i = .ok b') :
    b'.payload = b.payload ++ i.accepted b ∧ (b.avail ≠ 0 → b'.avail ≠ 0) := by
  unfold Insertion.accepted
  rcases insert_cases h with ⟨hfits, rfl⟩ | ⟨hlen, hfits, hfull, hnone⟩
  · refine ⟨?_, FixedBuffer.avail_append_ne⟩
    rw [hfits]
    by_cases hroom : i.text.length < b.avail
    · simp only [hroom, decide_true, ↓reduceIte]
      exact FixedBuffer.payload_append hroom
    · simp only [hroom, decide_false, Bool.false_eq_true, ↓reduceIte, List.append_nil]
      rw [FixedBuffer.append, dif_neg hroom]
  · rw [hfits]
    by_cases hroom : kMaxNumericSize ≤ b.avail
    · simp only [hroom, decide_true, ↓reduceIte]
      obtain ⟨hp, ha⟩ := addFormatted_ok (hfull hroom)
      exact ⟨hp, fun _ => by omega⟩
    · simp only [hroom, decide_false, Bool.false_eq_true, ↓reduceIte, List.append_nil]
      rw [hnone hroom]
      exact ⟨rfl, id⟩

theorem insertAll_spec {b b' : FixedBuffer kSmallBuffer} {is : List Insertion}
    (h : insertAll b is = .ok b') :
    b'.payload = b.payload ++ inserted b is ∧ (b.avail ≠ 0 → b'.avail ≠ 0) := by
  induction is generalizing b with
  | nil =>
    cases h
    exact ⟨(List.append_nil _).symm, id⟩
  | cons i is ih =>
    obtain ⟨c, hc, h⟩ := bind_ok h
    obtain ⟨hpayload, havail⟩ := insert_spec hc
    obtain ⟨hrest, hlast⟩ := ih h
    refine ⟨?_, fun hb => hlast (havail hb)⟩
    rw [hrest, hpayload, inserted, hc, List.append_assoc]

end RyanNetwork.Logger

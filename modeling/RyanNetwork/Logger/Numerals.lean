import RyanNetwork.Lib.Numeral
import RyanNetwork.Logger.LogStream

/-!
# The numbers in a log record

`FormatInteger` takes the digits from the back, by truncated division, and finds those of a
negative number in the mirrored half of its table, so that the most negative value needs no
negation. `ConvertHex` goes the same way. The texts they leave are canonical numerals.
-/
namespace RyanNetwork.Logger

open Lib

set_option autoImplicit false

/-- The types with an overload of `operator<<` for integers. -/
inductive IntegerType where
  | short
  | unsignedShort
  | int
  | unsignedInt
  | long
  | unsignedLong
  | longLong
  | unsignedLongLong
  deriving DecidableEq, Repr

namespace IntegerType

def least : IntegerType → Int
  | short => -2 ^ 15
  | int => -2 ^ 31
  | long => -2 ^ 63
  | longLong => -2 ^ 63
  | _ => 0

def greatest : IntegerType → Int
  | short => 2 ^ 15 - 1
  | unsignedShort => 2 ^ 16 - 1
  | int => 2 ^ 31 - 1
  | unsignedInt => 2 ^ 32 - 1
  | long => 2 ^ 63 - 1
  | unsignedLong => 2 ^ 64 - 1
  | longLong => 2 ^ 63 - 1
  | unsignedLongLong => 2 ^ 64 - 1

abbrev Value (T : IntegerType) := { v : Int // T.least ≤ v ∧ v ≤ T.greatest }

theorem range_le (T : IntegerType) : -2 ^ 63 ≤ T.least ∧ T.greatest < 2 ^ 64 := by
  cases T <;> decide

/-- The overload of a type. Those of the 16-bit types call that of `int` or `unsigned int`,
to which they convert without a change of the value. -/
def insertion (T : IntegerType) (v : T.Value) : Insertion :=
  .integer ⟨v.1, Int.le_trans T.range_le.1 v.2.1, Int.lt_of_le_of_lt v.2.2 T.range_le.2⟩

end IntegerType

def decimal : Digits UInt8 := ⟨chars "0123456789", by decide, by decide⟩

def hexadecimal : Digits UInt8 := ⟨chars "0123456789ABCDEF", by decide, by decide⟩

/-- The text is the canonical numeral of an integer: a minus sign only if it is negative,
and then the canonical numeral of its amount. -/
def CanonicalInteger (text : List UInt8) (v : Int) : Prop :=
  ∃ amount, text = (if v < 0 then chars "-" else []) ++ amount ∧
    decimal.Canonical amount v.natAbs

/-- Reading an integer back. -/
def parseInteger (text : List UInt8) : Option Int :=
  if text.head? = some 45 then (decimal.parse text.tail).map fun n : Nat => -(n : Int)
  else (decimal.parse text).map Int.ofNat

/-! ## The digit loops -/

theorem digits_read : ∀ k < 19, decimal.read (digits.getD k 0) = some (k - 9 + (9 - k)) := by
  decide

theorem hexDigits_read : ∀ k < 16,
    hexadecimal.read ((chars "0123456789ABCDEF").getD k 0) = some k := by
  decide

/-- The entry of the table for a remainder is the digit of its amount. -/
theorem digits_read_remainder (num : Int) :
    decimal.read (digits.getD (9 + num.tmod 10).toNat 0) = some (num.natAbs % 10) := by
  have habs : (num.tmod 10).natAbs = num.natAbs % 10 := Int.natAbs_tmod num 10
  have hlt : num.natAbs % 10 < 10 := Nat.mod_lt _ (by decide)
  rw [digits_read _ (by omega), Option.some.injEq]
  omega

/-- The digits of the amount, the last one first. -/
theorem decimalLoop_canonical {turns : Nat} {num : Int} (h : num.natAbs < turns) :
    decimal.Canonical (decimalLoop turns num).reverse num.natAbs := by
  induction turns generalizing num with
  | zero => exact absurd h (Nat.not_lt_zero _)
  | succ turns ih =>
    have hdigit := digits_read_remainder num
    have hdiv : (num.tdiv 10).natAbs = num.natAbs / 10 := Int.natAbs_tdiv num 10
    rw [decimalLoop, List.reverse_cons]
    split
    · rename_i hend
      rw [hend, Int.natAbs_zero] at hdiv
      have hone := Digits.canonical_digit hdigit
      rwa [Nat.mod_eq_of_lt (by omega)] at hone
    · rename_i hmore
      have hne : (num.tdiv 10).natAbs ≠ 0 := Int.natAbs_ne_zero.mpr hmore
      have hrest := (ih (by omega)).snoc hne hdigit
      have hbase : decimal.base = 10 := rfl
      rwa [hdiv, hbase, Nat.div_add_mod] at hrest

theorem hexLoop_canonical {turns i : Nat} (h : i < turns) :
    hexadecimal.Canonical (hexLoop turns i).reverse i := by
  induction turns generalizing i with
  | zero => exact absurd h (Nat.not_lt_zero _)
  | succ turns ih =>
    have hdigit := hexDigits_read (i % 16) (Nat.mod_lt _ (by decide))
    rw [hexLoop, List.reverse_cons]
    split
    · have hmod : i % 16 = i := Nat.mod_eq_of_lt (by omega)
      rw [hmod] at hdigit ⊢
      exact Digits.canonical_digit hdigit
    · rename_i hmore
      have hrest := (ih (i := i / 16) (by omega)).snoc hmore hdigit
      have hbase : hexadecimal.base = 16 := rfl
      rwa [hbase, Nat.div_add_mod] at hrest

theorem formatInteger_canonical (num : Int) : CanonicalInteger (formatInteger num) num := by
  refine ⟨_, ?_, decimalLoop_canonical (Nat.lt_succ_self num.natAbs)⟩
  rw [formatInteger, List.reverse_append]
  split
  · rfl
  · rfl

/-! ## Reading back -/

/-- A numeral does not begin with a minus sign. -/
theorem decimal_head_ne {amount : List UInt8} {n : Nat} (h : decimal.Canonical amount n) :
    amount.head? ≠ some 45 := by
  cases amount with
  | nil => exact nofun
  | cons c amount =>
    intro hminus
    cases Option.some.inj hminus
    have hvalue := h.value
    have hnone : decimal.extend 0 45 = none := by decide
    rw [Digits.parse, List.foldlM_cons, hnone] at hvalue
    cases hvalue

theorem CanonicalInteger.parse {text : List UInt8} {v : Int} (h : CanonicalInteger text v) :
    parseInteger text = some v := by
  obtain ⟨amount, rfl, hamount⟩ := h
  unfold parseInteger
  by_cases hneg : v < 0
  · rw [if_pos hneg]
    have hminus : (chars "-" ++ amount).head? = some 45 := rfl
    have htail : (chars "-" ++ amount).tail = amount := rfl
    rw [if_pos hminus, htail, hamount.value, Option.map_some, Option.some.injEq]
    omega
  · rw [if_neg hneg, List.nil_append, if_neg (decimal_head_ne hamount), hamount.value,
      Option.map_some, Option.some.injEq, Int.ofNat_eq_natCast]
    omega

theorem CanonicalInteger.unique {text text' : List UInt8} {v : Int}
    (h : CanonicalInteger text v) (h' : CanonicalInteger text' v) : text = text' := by
  obtain ⟨amount, rfl, hamount⟩ := h
  obtain ⟨amount', rfl, hamount'⟩ := h'
  rw [hamount.unique hamount']

/-! ## The overloads -/

/-- With room for a number, an overload that formats in place appends its text. -/
theorem insert_appends {b : FixedBuffer kSmallBuffer} {i : Insertion}
    (hi : ∀ text, i ≠ .double text) (hfits : i.fits b = true) :
    ∃ b', insert b i = .ok b' ∧ b'.payload = b.payload ++ i.text := by
  obtain ⟨b', hb'⟩ := insert_returns b hi
  obtain ⟨hpayload, -⟩ := insert_spec hb'
  rw [Insertion.accepted, if_pos hfits] at hpayload
  exact ⟨b', hb', hpayload⟩

/-- For every value of every integer type and every pointer, where there is room for a
number: the bytes appended are the canonical decimal numeral of the value, the only one,
which reads back as the value; for the pointer, `0x` and the canonical upper-case
hexadecimal numeral. -/
theorem numbers_logged_exactly {b : FixedBuffer kSmallBuffer} (hroom : kMaxNumericSize ≤ b.avail) :
    (∀ (T : IntegerType) (v : T.Value), ∃ b' text, insert b (T.insertion v) = .ok b' ∧
      b'.payload = b.payload ++ text ∧ CanonicalInteger text v.1 ∧
      (∀ text', CanonicalInteger text' v.1 → text' = text) ∧ parseInteger text = some v.1) ∧
    ∀ p : UInt64, ∃ b' text, insert b (.pointer p) = .ok b' ∧
      b'.payload = b.payload ++ (chars "0x" ++ text) ∧ hexadecimal.Canonical text p.toNat ∧
      ∀ text', hexadecimal.Canonical text' p.toNat → text' = text := by
  refine ⟨?_, ?_⟩
  · intro T v
    have hfits : (T.insertion v).fits b = true := decide_eq_true hroom
    obtain ⟨b', hb', hpayload⟩ := insert_appends (fun text => by simp [IntegerType.insertion]) hfits
    have hcanonical := formatInteger_canonical v.1
    exact ⟨b', formatInteger v.1, hb', hpayload, hcanonical, fun text' h => h.unique hcanonical,
      hcanonical.parse⟩
  · intro p
    have hfits : (Insertion.pointer p).fits b = true := decide_eq_true hroom
    obtain ⟨b', hb', hpayload⟩ := insert_appends (fun text => by simp) hfits
    have hcanonical := hexLoop_canonical (Nat.lt_succ_self p.toNat)
    exact ⟨b', convertHex p.toNat, hb', hpayload, hcanonical, fun text' h => h.unique hcanonical⟩

def zeros : FixedBuffer kSmallBuffer := .new ⟨List.replicate kSmallBuffer 0, List.length_replicate⟩

/-- The most negative `long long`, in an empty buffer. -/
theorem numbers_logged_exactly_least :
    kMaxNumericSize ≤ zeros.avail ∧ ∃ b' text,
      insert zeros (IntegerType.longLong.insertion ⟨-2 ^ 63, by decide⟩) = .ok b' ∧
      b'.payload = text ∧ text = chars "-9223372036854775808" ∧
      parseInteger text = some (-2 ^ 63) := by
  have hroom : kMaxNumericSize ≤ zeros.avail := by decide
  obtain ⟨b', text, hb', hpayload, hcanonical, -, hparse⟩ :=
    (numbers_logged_exactly hroom).1 .longLong ⟨-2 ^ 63, by decide⟩
  have htext : formatInteger (-2 ^ 63) = chars "-9223372036854775808" := by decide +kernel
  refine ⟨hroom, b', text, hb', hpayload, ?_, hparse⟩
  rw [← htext]
  exact hcanonical.unique (formatInteger_canonical _)

end RyanNetwork.Logger

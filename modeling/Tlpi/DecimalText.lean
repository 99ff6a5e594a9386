import Mathlib.Data.Int.Lemmas
import Mathlib.Data.List.Basic

/-!
Decimal numbers as text, the way the C library reads and prints them: `strtol` with
base 10, `atoi`, and the conversion `%d`.
-/

namespace Tlpi.DecimalText

def isspace (ch : UInt8) : Bool := ch = 32 || (9 ≤ ch && ch ≤ 13)

def isdigit (ch : UInt8) : Bool := 48 ≤ ch && ch ≤ 57

def value (digits : List UInt8) : Nat :=
  digits.foldl (fun sofar ch => 10 * sofar + (ch.toNat - 48)) 0

/-- A number that does not fit is replaced by the nearest long. -/
def strtol (text : List UInt8) : Int :=
  match text.dropWhile isspace with
  | 45 :: rest => max (-(value (rest.takeWhile isdigit) : Int)) (-2 ^ 63)
  | 43 :: rest => min (value (rest.takeWhile isdigit) : Int) (2 ^ 63 - 1)
  | rest => min (value (rest.takeWhile isdigit) : Int) (2 ^ 63 - 1)

/-- The long is converted to an int. -/
def atoi (text : List UInt8) : Int := (strtol text).bmod (2 ^ 32)

def decimal (number : Nat) : List UInt8 :=
  (Nat.toDigits 10 number).map fun ch => UInt8.ofNat ch.toNat

/-- The conversion `%d`. -/
def printed (number : Int) : List UInt8 :=
  if number < 0 then 45 :: decimal number.natAbs else decimal number.natAbs

/-- The conversion `%0nd`: zeros between the sign and the digits fill up the width. -/
def zeroPadded (width : Nat) (number : Int) : List UInt8 :=
  let digits := decimal number.natAbs
  if number < 0 then 45 :: (List.replicate (width - 1 - digits.length) 48 ++ digits)
  else List.replicate (width - digits.length) 48 ++ digits

theorem digit_byte (ch : Char) (digit : ch.isDigit = true) :
    isdigit (UInt8.ofNat ch.toNat) = true ∧ (UInt8.ofNat ch.toNat).toNat = ch.toNat := by
  obtain ⟨least, most⟩ : 48 ≤ ch.toNat ∧ ch.toNat ≤ 57 := by
    simp only [Char.isDigit, Bool.and_eq_true, decide_eq_true_eq, ge_iff_le,
      UInt32.le_iff_toNat_le] at digit
    exact digit
  have small : (UInt8.ofNat ch.toNat).toNat = ch.toNat := by
    rw [UInt8.toNat_ofNat']
    omega
  refine ⟨?_, small⟩
  simp only [isdigit, Bool.and_eq_true, decide_eq_true_eq, UInt8.le_iff_toNat_le, small]
  exact ⟨least, most⟩

theorem decimal_digits (number : Nat) : ∀ ch ∈ decimal number, isdigit ch = true := by
  intro ch member
  obtain ⟨digit, from_, rfl⟩ := List.mem_map.mp member
  exact (digit_byte digit (Nat.isDigit_of_mem_toDigits (by decide) (by decide) from_)).1

theorem value_decimal (number : Nat) : value (decimal number) = number := by
  have same : value (decimal number) = Nat.ofDigitChars 10 (Nat.toDigits 10 number) 0 := by
    unfold value decimal
    rw [List.foldl_map, Nat.ofDigitChars_eq_foldl]
    refine List.foldl_ext _ _ _ fun sofar ch member => ?_
    rw [(digit_byte ch (Nat.isDigit_of_mem_toDigits (by decide) (by decide) member)).2]
    rfl
  rw [same, Nat.ofDigitChars_ten_toDigits]

theorem length_printed (number : Int) (count : Nat) (positive : 0 < count)
    (small : number.natAbs < 10 ^ count) : (printed number).length ≤ count + 1 := by
  have digits : (decimal number.natAbs).length ≤ count := by
    rw [decimal, List.length_map, Nat.length_toDigits_le_iff (by decide) positive]
    exact small
  unfold printed
  split
  · exact Nat.succ_le_succ digits
  · exact Nat.le_succ_of_le digits

/-- A number that is not negative has the width exactly when its digits fit in it. -/
theorem length_zero_padded (width : Nat) (number : Int) (positive : 0 < width)
    (least : 0 ≤ number) : (zeroPadded width number).length = width ↔ number < 10 ^ width := by
  have digits : (decimal number.natAbs).length ≤ width ↔ number < 10 ^ width := by
    have power : ((10 ^ width : Nat) : Int) = 10 ^ width := by simp
    rw [decimal, List.length_map, Nat.length_toDigits_le_iff (by decide) positive, ← power]
    omega
  rw [zeroPadded, if_neg (Int.not_lt.mpr least), List.length_append,
      List.length_replicate, ← digits]
  omega

/-- A tail that does not go on with a digit. -/
def Ends (tail : List UInt8) : Prop := ∀ ch rest, tail = ch :: rest → isdigit ch = false

theorem take_digits (digits tail : List UInt8) (each : ∀ ch ∈ digits, isdigit ch = true)
    (ends : Ends tail) : (digits ++ tail).takeWhile isdigit = digits := by
  rw [List.takeWhile_append_of_pos each]
  cases tail with
  | nil => rw [List.takeWhile_nil, List.append_nil]
  | cons ch rest =>
      rw [List.takeWhile_cons_of_neg (by rw [ends ch rest rfl]; decide), List.append_nil]

/-- A digit is no white space and no sign. -/
theorem digit_plain (ch : UInt8) (digit : isdigit ch = true) :
    isspace ch = false ∧ ch ≠ 45 ∧ ch ≠ 43 := by
  simp only [isdigit, Bool.and_eq_true, decide_eq_true_eq, UInt8.le_iff_toNat_le] at digit
  obtain ⟨least, _⟩ := digit
  have above : 48 ≤ ch.toNat := least
  refine ⟨?_, ?_, ?_⟩
  · simp only [isspace, Bool.or_eq_false_iff, Bool.and_eq_false_iff, decide_eq_false_iff_not,
      UInt8.le_iff_toNat_le]
    constructor
    · rintro rfl
      exact absurd above (by decide)
    · right
      change ¬ ch.toNat ≤ 13
      omega
  · rintro rfl
    exact absurd above (by decide)
  · rintro rfl
    exact absurd above (by decide)

theorem strtol_digits (digits tail : List UInt8) (some_ : digits ≠ [])
    (each : ∀ ch ∈ digits, isdigit ch = true) (ends : Ends tail) :
    strtol (digits ++ tail) = min (value digits : Int) (2 ^ 63 - 1) := by
  have taken := take_digits digits tail each ends
  cases digits with
  | nil => exact absurd rfl some_
  | cons first others =>
      obtain ⟨plain, minus, plus⟩ := digit_plain first (each first List.mem_cons_self)
      have start : ((first :: others) ++ tail).dropWhile isspace = (first :: others) ++ tail :=
        List.dropWhile_cons_of_neg (by rw [plain]; decide)
      unfold strtol
      rw [start]
      split
      · next same => exact absurd (List.cons.inj same).1 minus
      · next same => exact absurd (List.cons.inj same).1 plus
      · rw [taken]

/-- What `%d` prints is read as the same number. -/
theorem strtol_printed (number : Int) (tail : List UInt8) (ends : Ends tail)
    (least : -2 ^ 63 ≤ number) (most : number < 2 ^ 63) :
    strtol (printed number ++ tail) = number := by
  have digits := decimal_digits number.natAbs
  unfold printed
  split
  · next negative =>
      have start : ((45 :: decimal number.natAbs) ++ tail).dropWhile isspace =
          45 :: (decimal number.natAbs ++ tail) := rfl
      unfold strtol
      simp only [start, take_digits _ tail digits ends, value_decimal]
      omega
  · next positive =>
      have some_ : decimal number.natAbs ≠ [] := by
        unfold decimal
        exact fun empty => Nat.toDigits_ne_nil (List.map_eq_nil_iff.mp empty)
      rw [strtol_digits _ tail some_ digits ends, value_decimal]
      omega

end Tlpi.DecimalText

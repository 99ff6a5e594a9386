import Mathlib.Data.Int.Lemmas
import Mathlib.Data.List.Basic
import Mathlib.Data.List.TakeWhile
import Tlpi.DecimalText

/-!
Integers as text in any base: the function `strtol` of the C library with its end pointer
and its range error, and the numerals that it reads. Base 0 stands for the constants of C,
whose base is told by how they begin.
-/

namespace Tlpi.Numerals

open DecimalText

/-- Letters go on after the digits; no other byte is a digit of any base. -/
def digitValue (ch : UInt8) : Nat :=
  if isdigit ch then ch.toNat - 48
  else if 97 ≤ ch ∧ ch ≤ 122 then ch.toNat - 87
  else if 65 ≤ ch ∧ ch ≤ 90 then ch.toNat - 55
  else 36

def digitOf (base : Nat) (ch : UInt8) : Bool := digitValue ch < base

def magnitude (base : Nat) (digits : List UInt8) : Nat :=
  digits.foldl (fun sofar ch => base * sofar + digitValue ch) 0

def cutSign : List UInt8 → Bool × List UInt8
  | 45 :: rest => (true, rest)
  | 43 :: rest => (false, rest)
  | rest => (false, rest)

/-- What follows `0x` or `0X`, which is a mark only before a digit. -/
def hexMark : List UInt8 → Option (List UInt8)
  | 48 :: mark :: ch :: rest =>
      if (mark = 120 ∨ mark = 88) ∧ digitOf 16 ch then some (ch :: rest) else none
  | _ => none

/-- The base in which the digits are read, and the text from the first digit on. -/
def cutMark (base : Nat) (text : List UInt8) : Nat × List UInt8 :=
  if base = 0 ∨ base = 16 then
    match hexMark text with
    | some rest => (16, rest)
    | none => (if base = 16 then 16 else if text.head? = some 48 then 8 else 10, text)
  else (base, text)

def clamp (number : Int) : Int := max (min number (2 ^ 63 - 1)) (-2 ^ 63)

/-- `erange` tells whether `errno` is set; `endptr` is what is left of the text. -/
structure Conversion where
  value : Int
  erange : Bool
  endptr : List UInt8
  deriving DecidableEq

def strtol (text : List UInt8) (base : Nat) : Conversion :=
  let signed := cutSign (text.dropWhile isspace)
  let marked := cutMark base signed.2
  let digits := marked.2.takeWhile (digitOf marked.1)
  if digits = [] then ⟨0, false, text⟩
  else
    let number : Int := if signed.1 then -(magnitude marked.1 digits) else magnitude marked.1 digits
    ⟨clamp number, clamp number ≠ number, marked.2.dropWhile (digitOf marked.1)⟩

/-! The numerals. -/

/-- A numeral of a base without sign, and its value. -/
inductive Numeral : Nat → List UInt8 → Nat → Prop where
  | plain (base : Nat) (digits : List UInt8) (some_ : digits ≠ [])
      (each : ∀ ch ∈ digits, digitOf base ch = true) :
      Numeral base digits (magnitude base digits)
  | marked (base : Nat) (mark : UInt8) (digits : List UInt8) (either : mark = 120 ∨ mark = 88)
      (some_ : digits ≠ [])
      (each : ∀ ch ∈ digits, digitOf 16 ch = true) (allowed : base = 0 ∨ base = 16) :
      Numeral base (48 :: mark :: digits) (magnitude 16 digits)
  | octal (digits : List UInt8) (each : ∀ ch ∈ digits, digitOf 8 ch = true) :
      Numeral 0 (48 :: digits) (magnitude 8 digits)
  | decimal (first : UInt8) (digits : List UInt8) (nonzero : first ≠ 48)
      (each : ∀ ch ∈ first :: digits, digitOf 10 ch = true) :
      Numeral 0 (first :: digits) (magnitude 10 (first :: digits))

/-- White space, a sign and a numeral, each but the last optional, and nothing after them. -/
inductive Reads (base : Nat) : List UInt8 → Int → Prop where
  | unsigned (blanks body : List UInt8) (number : Nat)
      (blank : ∀ ch ∈ blanks, isspace ch = true)
      (numeral : Numeral base body number) : Reads base (blanks ++ body) number
  | plus (blanks body : List UInt8) (number : Nat) (blank : ∀ ch ∈ blanks, isspace ch = true)
      (numeral : Numeral base body number) : Reads base (blanks ++ 43 :: body) number
  | minus (blanks body : List UInt8) (number : Nat) (blank : ∀ ch ∈ blanks, isspace ch = true)
      (numeral : Numeral base body number) : Reads base (blanks ++ 45 :: body) (-number)

theorem digitOf_ten (ch : UInt8) : digitOf 10 ch = isdigit ch := by
  unfold digitOf digitValue
  cases digit : isdigit ch with
  | true =>
      simp only [isdigit, Bool.and_eq_true, decide_eq_true_eq, UInt8.le_iff_toNat_le] at digit
      have most : ch.toNat ≤ 57 := digit.2
      rw [if_pos rfl, decide_eq_true_eq]
      omega
  | false =>
      rw [if_neg (by decide), decide_eq_false_iff_not]
      split
      · next lower =>
          have least : 97 ≤ ch.toNat := UInt8.le_iff_toNat_le.mp lower.1
          omega
      · split
        · next upper =>
            have least : 65 ≤ ch.toNat := UInt8.le_iff_toNat_le.mp upper.1
            omega
        · decide

theorem hexMark_some (text rest : List UInt8) :
    hexMark text = some rest ↔ ∃ mark ch more,
      text = 48 :: mark :: ch :: more ∧ rest = ch :: more ∧
      (mark = 120 ∨ mark = 88) ∧ digitOf 16 ch = true := by
  constructor
  · intro found
    unfold hexMark at found
    split at found
    · next mark ch more =>
        split at found
        · next both =>
            cases found
            exact ⟨mark, ch, more, rfl, rfl, both⟩
        · cases found
    · cases found
  · rintro ⟨mark, ch, more, rfl, rfl, both⟩
    exact if_pos both

/-- The letter of the mark is no digit of base 16 or less. -/
theorem unmarked (base : Nat) (small : base ≤ 16) (text : List UInt8)
    (each : ∀ ch ∈ text.tail, digitOf base ch = true) : hexMark text = none := by
  rw [Option.eq_none_iff_forall_ne_some]
  intro rest found
  obtain ⟨mark, ch, more, rfl, _, either, _⟩ := (hexMark_some text rest).mp found
  have digit := each mark List.mem_cons_self
  simp only [digitOf, decide_eq_true_eq] at digit
  have large : digitValue mark = 33 := by
    rcases either with rfl | rfl <;> decide
  omega

theorem magnitude_zero (base : Nat) (digits : List UInt8) :
    magnitude base (48 :: digits) = magnitude base digits := by
  have zero : digitValue 48 = 0 := by decide
  simp [magnitude, zero]

theorem cut_numeral (base : Nat) (text : List UInt8) (number : Nat)
    (numeral : Numeral base text number) :
    (cutMark base text).2 ≠ [] ∧
      (∀ ch ∈ (cutMark base text).2, digitOf (cutMark base text).1 ch = true) ∧
      number = magnitude (cutMark base text).1 (cutMark base text).2 := by
  cases numeral with
  | plain _ _ some_ each =>
      have cut : cutMark base text = (base, text) := by
        unfold cutMark
        split
        · next either =>
            rcases either with rfl | rfl
            · obtain ⟨first, member⟩ := List.exists_mem_of_ne_nil text some_
              have bad := each first member
              simp [digitOf] at bad
            · rw [unmarked 16 (Nat.le_refl 16) text fun ch member =>
                  each ch (List.mem_of_mem_tail member)]
              rfl
        · rfl
      rw [cut]
      exact ⟨some_, each, rfl⟩
  | marked _ mark digits either some_ each allowed =>
      have cut : cutMark base (48 :: mark :: digits) = (16, digits) := by
        obtain ⟨ch, more, rfl⟩ := List.exists_cons_of_ne_nil some_
        have found := (hexMark_some (48 :: mark :: ch :: more) (ch :: more)).mpr
          ⟨mark, ch, more, rfl, rfl, either, each ch List.mem_cons_self⟩
        simp only [cutMark, if_pos allowed, found]
      rw [cut]
      exact ⟨some_, each, rfl⟩
  | octal digits each =>
      have cut : cutMark 0 (48 :: digits) = (8, 48 :: digits) := by
        simp only [cutMark, unmarked 8 (by decide) (48 :: digits) each]
        rfl
      rw [cut]
      refine ⟨List.cons_ne_nil _ _, ?_, (magnitude_zero 8 digits).symm⟩
      intro ch member
      rcases List.mem_cons.mp member with rfl | later
      · exact (by decide : digitOf 8 48 = true)
      · exact each ch later
  | decimal first digits nonzero each =>
      have cut : cutMark 0 (first :: digits) = (10, first :: digits) := by
        simp only [cutMark, unmarked 10 (by decide) (first :: digits) fun ch member =>
          each ch (List.mem_cons_of_mem first member)]
        simp [nonzero]
      rw [cut]
      exact ⟨List.cons_ne_nil _ _, each, rfl⟩

theorem numeral_of_cut (base : Nat) (text : List UInt8) (some_ : (cutMark base text).2 ≠ [])
    (each : ∀ ch ∈ (cutMark base text).2, digitOf (cutMark base text).1 ch = true) :
    Numeral base text (magnitude (cutMark base text).1 (cutMark base text).2) := by
  unfold cutMark at some_ each ⊢
  split at some_
  · next allowed =>
      rw [if_pos allowed] at each ⊢
      cases found : hexMark text with
      | some rest =>
          obtain ⟨mark, ch, more, rfl, rfl, either, _⟩ := (hexMark_some text rest).mp found
          rw [found] at each
          exact .marked base mark (ch :: more) either (List.cons_ne_nil _ _) each allowed
      | none =>
          rw [found] at some_ each
          rcases allowed with rfl | rfl
          · cases text with
            | nil => exact absurd rfl some_
            | cons first digits =>
                by_cases zero : first = 48
                · subst zero
                  rw [magnitude_zero]
                  exact .octal digits fun ch member => each ch (List.mem_cons_of_mem _ member)
                · simp only [List.head?_cons, Option.some.injEq, zero, if_false,
                    Nat.reduceEqDiff] at each ⊢
                  exact .decimal first digits zero each
          · exact .plain 16 text some_ each
  · next other =>
      rw [if_neg other] at each ⊢
      exact .plain base text some_ each

/-! What `strtol` makes of a text. -/

/-- A digit is no white space and no sign. -/
theorem digit_solid (base : Nat) (small : base ≤ 36) (ch : UInt8)
    (digit : digitOf base ch = true) : isspace ch = false ∧ ch ≠ 45 ∧ ch ≠ 43 := by
  have inside : digitValue ch < 36 := by
    simp only [digitOf, decide_eq_true_eq] at digit
    omega
  have large : 48 ≤ ch.toNat := by
    by_contra less
    refine absurd inside (Nat.not_lt.mpr ?_)
    simp only [digitValue, isdigit, Bool.and_eq_true, decide_eq_true_eq, UInt8.le_iff_toNat_le]
    rw [if_neg fun both => less both.1, if_neg fun both => less (Nat.le_trans (by decide) both.1),
      if_neg fun both => less (Nat.le_trans (by decide) both.1)]
  refine ⟨?_, ?_, ?_⟩
  · simp only [isspace, Bool.or_eq_false_iff, Bool.and_eq_false_iff, decide_eq_false_iff_not,
      UInt8.le_iff_toNat_le]
    constructor
    · rintro rfl
      exact absurd large (by decide)
    · right
      change ¬ ch.toNat ≤ 13
      omega
  · rintro rfl
    exact absurd large (by decide)
  · rintro rfl
    exact absurd large (by decide)

theorem numeral_head (base : Nat) (small : base ≤ 36) (text : List UInt8) (number : Nat)
    (numeral : Numeral base text number) :
    ∃ first rest, text = first :: rest ∧ isspace first = false ∧ first ≠ 45 ∧
      first ≠ 43 := by
  cases numeral with
  | plain _ _ some_ each =>
      obtain ⟨first, rest, rfl⟩ := List.exists_cons_of_ne_nil some_
      exact ⟨first, rest, rfl, digit_solid base small first (each first List.mem_cons_self)⟩
  | marked _ mark digits => exact ⟨48, mark :: digits, rfl, by decide⟩
  | octal digits => exact ⟨48, digits, rfl, by decide⟩
  | decimal first digits _ each =>
      exact ⟨first, digits, rfl,
        digit_solid 10 (by decide) first (each first List.mem_cons_self)⟩

theorem cutSign_solid (first : UInt8) (rest : List UInt8) (minus : first ≠ 45)
    (plus : first ≠ 43) : cutSign (first :: rest) = (false, first :: rest) := by
  unfold cutSign
  split
  · next same => exact absurd (List.cons.inj same).1 minus
  · next same => exact absurd (List.cons.inj same).1 plus
  · rfl

theorem drop_blanks (blanks rest : List UInt8) (first : UInt8)
    (blank : ∀ ch ∈ blanks, isspace ch = true) (solid : isspace first = false) :
    (blanks ++ first :: rest).dropWhile isspace = first :: rest := by
  rw [List.dropWhile_append_of_pos blank, List.dropWhile_cons_of_neg (by rw [solid]; decide)]

theorem strtol_numeral (text unsigned : List UInt8) (base : Nat) (negative : Bool)
    (signed : cutSign (text.dropWhile isspace) = (negative, unsigned)) (number : Nat)
    (numeral : Numeral base unsigned number) :
    strtol text base = ⟨clamp (if negative then -number else number),
      clamp (if negative then -number else number) ≠ (if negative then -number else number : Int),
      []⟩ := by
  obtain ⟨some_, each, rfl⟩ := cut_numeral base unsigned number numeral
  have taken := List.takeWhile_eq_self_iff.mpr each
  have left := List.dropWhile_eq_nil_iff.mpr each
  simp only [strtol, signed, taken, left, if_neg some_]

/-- Of a whole numeral nothing is left, and its value is clamped to a long. -/
theorem strtol_reads (base : Nat) (small : base ≤ 36) (text : List UInt8) (number : Int)
    (reads : Reads base text number) :
    strtol text base = ⟨clamp number, clamp number ≠ number, []⟩ := by
  cases reads with
  | unsigned blanks body number blank numeral =>
      obtain ⟨first, rest, rfl, solid, minus, plus⟩ :=
        numeral_head base small body number numeral
      refine strtol_numeral _ (first :: rest) base false ?_ number numeral
      rw [drop_blanks blanks rest first blank solid, cutSign_solid first rest minus plus]
  | plus blanks body number blank numeral =>
      refine strtol_numeral _ body base false ?_ number numeral
      rw [drop_blanks blanks body 43 blank (by decide)]
      rfl
  | minus blanks body number blank numeral =>
      refine strtol_numeral _ body base true ?_ number numeral
      rw [drop_blanks blanks body 45 blank (by decide)]
      rfl

theorem reads_nonempty (base : Nat) (small : base ≤ 36) (text : List UInt8) (number : Int)
    (reads : Reads base text number) : text ≠ [] := by
  cases reads with
  | unsigned blanks body number _ numeral =>
      obtain ⟨first, rest, rfl, _⟩ := numeral_head base small body number numeral
      simp
  | plus blanks body => simp
  | minus blanks body => simp

/-- Nothing is left only of a whole numeral. -/
theorem reads_of_endptr (base : Nat) (text : List UInt8) (some_ : text ≠ [])
    (ended : (strtol text base).endptr = []) : ∃ number, Reads base text number := by
  have blank : ∀ ch ∈ text.takeWhile isspace, isspace ch = true :=
    fun ch member => List.mem_takeWhile_imp member
  have whole := List.takeWhile_append_dropWhile (p := isspace) (l := text)
  unfold strtol at ended
  dsimp only at ended
  split at ended
  · exact absurd ended some_
  · next digits =>
      have each := List.dropWhile_eq_nil_iff.mp ended
      have numeral := numeral_of_cut base (cutSign (text.dropWhile isspace)).2
        (fun empty => digits (by rw [empty]; rfl)) each
      rw [← whole]
      unfold cutSign at numeral
      split at numeral
      · next rest same =>
          rw [same]
          exact ⟨_, .minus _ rest _ blank numeral⟩
      · next rest same =>
          rw [same]
          exact ⟨_, .plus _ rest _ blank numeral⟩
      · exact ⟨_, .unsigned _ _ _ blank numeral⟩

/-- Decimal digits are read up to the first byte that is none. -/
theorem strtol_digits (digits tail : List UInt8) (some_ : digits ≠ [])
    (each : ∀ ch ∈ digits, isdigit ch = true)
    (ends : ∀ ch, tail.head? = some ch → isdigit ch = false) :
    strtol (digits ++ tail) 10 =
      ⟨clamp (magnitude 10 digits), clamp (magnitude 10 digits) ≠ (magnitude 10 digits : Int),
        tail⟩ := by
  have digit : digitOf 10 = isdigit := funext digitOf_ten
  obtain ⟨first, rest, rfl⟩ := List.exists_cons_of_ne_nil some_
  obtain ⟨solid, minus, plus⟩ := digit_plain first (each first List.mem_cons_self)
  have blank : ((first :: rest) ++ tail).dropWhile isspace = (first :: rest) ++ tail :=
    List.dropWhile_cons_of_neg (by rw [solid]; decide)
  have unsigned : cutSign ((first :: rest) ++ tail) = (false, (first :: rest) ++ tail) :=
    cutSign_solid first (rest ++ tail) minus plus
  have plain : cutMark 10 ((first :: rest) ++ tail) = (10, (first :: rest) ++ tail) := rfl
  have taken : ((first :: rest) ++ tail).takeWhile isdigit = first :: rest :=
    take_digits (first :: rest) tail each fun ch more same => ends ch (by rw [same]; rfl)
  have left : ((first :: rest) ++ tail).dropWhile isdigit = tail := by
    rw [List.dropWhile_append_of_pos each]
    cases tail with
    | nil => rfl
    | cons ch more => rw [List.dropWhile_cons_of_neg (by rw [ends ch rfl]; decide)]
  simp only [strtol, blank, unsigned, plain, digit, taken, left,
    if_neg (List.cons_ne_nil first rest), Bool.false_eq_true, if_false]

/-- A text that begins with a digit, cut after its digits. -/
theorem digits_first (text : List UInt8) (digit : text.head?.any isdigit = true) :
    ∃ digits tail, text = digits ++ tail ∧ digits ≠ [] ∧
      (∀ ch ∈ digits, isdigit ch = true) ∧
      ∀ ch, tail.head? = some ch → isdigit ch = false := by
  refine ⟨text.takeWhile isdigit, text.dropWhile isdigit,
    List.takeWhile_append_dropWhile.symm, ?_, fun ch member => List.mem_takeWhile_imp member, ?_⟩
  · cases text with
    | nil => simp at digit
    | cons first rest =>
        have here : isdigit first = true := by simpa using digit
        rw [List.takeWhile_cons_of_pos here]
        exact List.cons_ne_nil _ _
  · intro ch found
    have kept := List.head?_dropWhile_not isdigit text
    rw [found] at kept
    simpa using kept

theorem clamp_fits (number : Int) :
    clamp number = number ↔ -2 ^ 63 ≤ number ∧ number < 2 ^ 63 := by
  unfold clamp
  omega

end Tlpi.Numerals

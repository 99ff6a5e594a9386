import Mathlib.Data.BitVec
import Tlpi.CStrings
import Tlpi.Numerals

/-!
lib/get_num.c: `getLong` and `getInt`, with which the programs read the numbers on their
command lines. A null pointer is `none`; a call that ends in `gnFail` has no result but the
text that is written before the program exits.
-/

namespace Tlpi.GetNum

open CStrings Numerals

abbrev Flags := BitVec 32

def GN_NONNEG : Flags := 0x1#32
def GN_GT_0 : Flags := 0x2#32
def GN_ANY_BASE : Flags := 0x40#32
def GN_BASE_8 : Flags := 0x80#32
def GN_BASE_16 : Flags := 0x100#32

def has (flags flag : Flags) : Bool := flags &&& flag != 0#32

def gnFail (fname msg : Str) (arg name : Option Str) : Except Str Int :=
  .error (fname ++ literal " error" ++
    (match name with
      | none => []
      | some name => literal " (in " ++ name ++ literal ")") ++
    literal ": " ++ msg ++ literal "\n" ++
    (match arg with
      | none | some [] => []
      | some arg => literal "        offending text: " ++ arg ++ literal "\n"))

def baseOf (flags : Flags) : Nat :=
  if has flags GN_ANY_BASE then 0 else if has flags GN_BASE_8 then 8
  else if has flags GN_BASE_16 then 16 else 10

def getNum (fname : Str) (arg : Option Str) (flags : Flags) (name : Option Str) : Except Str Int :=
  match arg with
  | none | some [] => gnFail fname (literal "null or empty string") arg name
  | some text =>
      let res := strtol text (baseOf flags)
      if res.erange then gnFail fname (literal "strtol() failed") arg name
      else if res.endptr ≠ [] then gnFail fname (literal "nonnumeric characters") arg name
      else if has flags GN_NONNEG ∧ res.value < 0 then
        gnFail fname (literal "negative value not allowed") arg name
      else if has flags GN_GT_0 ∧ res.value ≤ 0 then
        gnFail fname (literal "value must be > 0") arg name
      else .ok res.value

def getLong (arg : Option Str) (flags : Flags) (name : Option Str) : Except Str Int :=
  getNum (literal "getLong") arg flags name

def INT_MAX : Int := 2 ^ 31 - 1
def INT_MIN : Int := -2 ^ 31

def getInt (arg : Option Str) (flags : Flags) (name : Option Str) : Except Str Int :=
  match getNum (literal "getInt") arg flags name with
  | .error text => .error text
  | .ok res =>
      if res > INT_MAX ∨ res < INT_MIN then
        gnFail (literal "getInt") (literal "integer out of range") arg name
      else .ok (res.bmod (2 ^ 32))

/-- What the flags ask of the number. -/
def Allowed (flags : Flags) (number : Int) : Prop :=
  (has flags GN_NONNEG = true → 0 ≤ number) ∧ (has flags GN_GT_0 = true → 0 < number)

theorem base_small (flags : Flags) : baseOf flags ≤ 36 := by
  unfold baseOf
  split
  · decide
  · split
    · decide
    · split <;> decide

section Calls
variable (fname : Str) (arg : Option Str) (flags : Flags) (name : Option Str)

/-- The number is the one that the text says, if it passes all the tests. -/
theorem get_num_reads (text : Str) (number : Int) (reads : Reads (baseOf flags) text number)
    (fits : -2 ^ 63 ≤ number ∧ number < 2 ^ 63) (allowed : Allowed flags number) :
    getNum fname (some text) flags name = .ok number := by
  have converted := strtol_reads (baseOf flags) (base_small flags) text number reads
  rw [(clamp_fits number).mpr fits] at converted
  obtain ⟨first, rest, rfl⟩ :=
    List.exists_cons_of_ne_nil (reads_nonempty _ (base_small flags) text number reads)
  have nonneg : ¬ (has flags GN_NONNEG = true ∧ number < 0) :=
    fun bad => absurd (allowed.1 bad.1) (Int.not_le.mpr bad.2)
  have positive : ¬ (has flags GN_GT_0 = true ∧ number ≤ 0) :=
    fun bad => absurd (allowed.2 bad.1) (Int.not_lt.mpr bad.2)
  simp [getNum, converted, nonneg, positive]

/-- Only a number that is written in full comes back. -/
theorem get_num_some (number : Int) (returned : getNum fname arg flags name = .ok number) :
    ∃ text, arg = some text ∧ Reads (baseOf flags) text number ∧
      (-2 ^ 63 ≤ number ∧ number < 2 ^ 63) ∧ Allowed flags number := by
  unfold getNum at returned
  split at returned
  · cases returned
  · cases returned
  · next text some_ =>
      dsimp only at returned
      split at returned
      · cases returned
      · next inside =>
          split at returned
          · cases returned
          · next ended =>
              split at returned
              · cases returned
              · next nonneg =>
                  split at returned
                  · cases returned
                  · next positive =>
                      cases returned
                      have nonempty : text ≠ [] := fun empty => some_ (by rw [empty])
                      obtain ⟨number, reads⟩ :=
                        reads_of_endptr (baseOf flags) text nonempty (not_not.mp ended)
                      have converted :=
                        strtol_reads (baseOf flags) (base_small flags) text number reads
                      rw [converted] at inside nonneg positive ⊢
                      have same : clamp number = number := by simpa using inside
                      simp only [same, not_and, not_lt, not_le] at nonneg positive ⊢
                      exact ⟨text, rfl, reads, (clamp_fits number).mp same, nonneg, positive⟩

theorem get_num_ok (number : Int) : getNum fname arg flags name = .ok number ↔
    ∃ text, arg = some text ∧ Reads (baseOf flags) text number ∧
      (-2 ^ 63 ≤ number ∧ number < 2 ^ 63) ∧
      Allowed flags number := by
  constructor
  · exact get_num_some fname arg flags name number
  · rintro ⟨text, rfl, reads, fits, allowed⟩
    exact get_num_reads fname flags name text number reads fits allowed

theorem get_num_cases : (∃ number, getNum fname arg flags name = .ok number) ∨
    ∃ msg, getNum fname arg flags name = gnFail fname msg arg name := by
  unfold getNum
  split
  · exact Or.inr ⟨_, rfl⟩
  · exact Or.inr ⟨_, rfl⟩
  · dsimp only
    split
    · exact Or.inr ⟨_, rfl⟩
    · split
      · exact Or.inr ⟨_, rfl⟩
      · split
        · exact Or.inr ⟨_, rfl⟩
        · split
          · exact Or.inr ⟨_, rfl⟩
          · exact Or.inl ⟨_, rfl⟩

end Calls

/-- The range test of `getInt` comes on top of the tests of `getNum`. -/
theorem get_int_narrows (arg : Option Str) (flags : Flags) (name : Option Str) (res : Int)
    (read : getNum (literal "getInt") arg flags name = .ok res) :
    getInt arg flags name =
      if -2 ^ 31 ≤ res ∧ res < 2 ^ 31 then .ok res
      else gnFail (literal "getInt") (literal "integer out of range") arg name := by
  unfold getInt
  rw [read]
  dsimp only
  split
  · next beyond =>
      simp only [INT_MAX, INT_MIN] at beyond
      rw [if_neg (by omega)]
  · next inside =>
      simp only [INT_MAX, INT_MIN] at inside
      rw [if_pos (by omega), Int.bmod_eq_of_le (by omega) (by omega)]

theorem get_int_ok (arg : Option Str) (flags : Flags) (name : Option Str) (number : Int) :
    getInt arg flags name = .ok number ↔ ∃ text,
      arg = some text ∧ Reads (baseOf flags) text number ∧
      (-2 ^ 31 ≤ number ∧ number < 2 ^ 31) ∧ Allowed flags number := by
  constructor
  · intro returned
    rcases get_num_cases (literal "getInt") arg flags name with ⟨res, read⟩ | ⟨msg, failed⟩
    · rw [get_int_narrows arg flags name res read] at returned
      split at returned
      · next inside =>
          cases returned
          obtain ⟨text, same, reads, _, allowed⟩ := (get_num_ok _ arg flags name number).mp read
          exact ⟨text, same, reads, inside, allowed⟩
      · cases returned
    · simp [getInt, failed, gnFail] at returned
  · rintro ⟨text, same, reads, inside, allowed⟩
    have read := (get_num_ok (literal "getInt") arg flags name number).mpr ⟨text, same,
      reads, by omega, allowed⟩
    rw [get_int_narrows arg flags name number read, if_pos inside]

theorem get_int_cases (arg : Option Str) (flags : Flags) (name : Option Str) :
    (∃ number, getInt arg flags name = .ok number) ∨
      ∃ msg, getInt arg flags name = gnFail (literal "getInt") msg arg name := by
  rcases get_num_cases (literal "getInt") arg flags name with ⟨res, read⟩ | ⟨msg, failed⟩
  · rw [get_int_narrows arg flags name res read]
    split
    · exact Or.inl ⟨res, rfl⟩
    · exact Or.inr ⟨_, rfl⟩
  · refine Or.inr ⟨msg, ?_⟩
    simp [getInt, failed, gnFail]

/-- A number is returned exactly for a whole numeral of the selected base that is in range
and meets the flags; every other argument ends in `gnFail`. -/
theorem numbers_are_whole_numerals (arg : Option Str) (flags : Flags) (name : Option Str) :
    (∀ number, getLong arg flags name = .ok number ↔ ∃ text,
      arg = some text ∧ Reads (baseOf flags) text number ∧
      (-2 ^ 63 ≤ number ∧ number < 2 ^ 63) ∧ Allowed flags number) ∧
    (∀ number, getInt arg flags name = .ok number ↔ ∃ text,
      arg = some text ∧ Reads (baseOf flags) text number ∧
      (-2 ^ 31 ≤ number ∧ number < 2 ^ 31) ∧ Allowed flags number) ∧
    ((∃ number, getLong arg flags name = .ok number) ∨
      ∃ msg, getLong arg flags name = gnFail (literal "getLong") msg arg name) ∧
    ((∃ number, getInt arg flags name = .ok number) ∨
      ∃ msg, getInt arg flags name = gnFail (literal "getInt") msg arg name) := by
  exact ⟨get_num_ok (literal "getLong") arg flags name, get_int_ok arg flags name,
    get_num_cases (literal "getLong") arg flags name, get_int_cases arg flags name⟩

-- The flags decide how a text that begins with "0" is read, and what follows the digits is
-- never dropped.
example : getInt (some (literal " -0x1F")) GN_ANY_BASE none = .ok (-31) ∧
    getInt (some (literal "017")) GN_BASE_8 none = .ok 15 ∧
    getInt (some (literal "017")) 0#32 none = .ok 17 ∧
    getInt (some (literal "0x")) GN_BASE_16 (some (literal "n")) =
      .error
        (literal "getInt error (in n): nonnumeric characters\n        offending text: 0x\n") := by
  decide

end Tlpi.GetNum

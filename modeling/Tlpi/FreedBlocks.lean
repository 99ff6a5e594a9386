import Mathlib.Data.List.Basic
import Tlpi.CStrings
import Tlpi.DecimalText
import Tlpi.GetNum

/-!
memalloc/free_and_sbrk.c: the numbers on the command line and the loop that frees blocks. The
index of the loop is an int, so adding the step to it may overflow; that and an index without
an allocated block end the loop here.
-/

namespace Tlpi.FreedBlocks

open CStrings GetNum

def MAX_ALLOCS : Int := 1000000

structure Numbers where
  numAllocs : Int
  blockSize : Int
  freeStep : Int
  freeMin : Int
  freeMax : Int
  deriving DecidableEq

def usageErr (argv0 : Str) : Str :=
  literal "Usage: " ++ argv0 ++ literal " num-allocs block-size [step [min [max]]]\n"

def cmdLineErr (text : Str) : Str := literal "Command-line usage error: " ++ text

/-- A number that may be left out. -/
def optional (argv : List Str) (position : Nat) (name : String) (default : Int) : Except Str Int :=
  if argv.length > position then getInt argv[position]? GN_GT_0 (some (literal name))
  else .ok default

/-- What `main` takes from its arguments, or the text with which it gives up. -/
def readNumbers (argv : List Str) : Except Str Numbers :=
  if argv.length < 3 ∨ argv[1]? = some (literal "--help") then .error (usageErr (argv.headD []))
  else do
    let numAllocs ← getInt argv[1]? GN_GT_0 (some (literal "num-allocs"))
    if numAllocs > MAX_ALLOCS then
      .error (cmdLineErr (literal "num-allocs > " ++ DecimalText.printed MAX_ALLOCS ++
        literal "\n"))
    else do
      let blockSize ← getInt argv[2]? (GN_GT_0 ||| GN_ANY_BASE) (some (literal "block-size"))
      let freeStep ← optional argv 3 "step" 1
      let freeMin ← optional argv 4 "min" 1
      let freeMax ← optional argv 5 "max" numAllocs
      if freeMax > numAllocs then .error (cmdLineErr (literal "free-max > num-allocs\n"))
      else .ok ⟨numAllocs, blockSize, freeStep, freeMin, freeMax⟩

/-- What the tests leave. -/
structure Admits (numbers : Numbers) : Prop where
  step : 0 < numbers.freeStep ∧ numbers.freeStep ≤ INT_MAX
  least : 0 < numbers.freeMin ∧ numbers.freeMin ≤ INT_MAX
  most : 0 < numbers.freeMax ∧ numbers.freeMax ≤ numbers.numAllocs
  allocated : numbers.numAllocs ≤ MAX_ALLOCS

abbrev Admitted := { numbers : Numbers // Admits numbers }

theorem bind_ok {First Second : Type} (value : Except Str First)
    (next : First → Except Str Second) (result : Second) (run : value >>= next = .ok result) :
    ∃ first, value = .ok first ∧ next first = .ok result := by
  cases value with
  | error text => cases run
  | ok first => exact ⟨first, rfl, run⟩

theorem positive_int (arg name : Option Str) (flags : Flags) (positive : has flags GN_GT_0 = true)
    (number : Int) (read : getInt arg flags name = .ok number) :
    0 < number ∧ number ≤ INT_MAX := by
  obtain ⟨text, _, _, inside, allowed⟩ := (get_int_ok arg flags name number).mp read
  refine ⟨allowed.2 positive, ?_⟩
  unfold INT_MAX
  omega

theorem optional_positive (argv : List Str) (position : Nat) (name : String) (default number : Int)
    (fine : 0 < default ∧ default ≤ INT_MAX)
    (read : optional argv position name default = .ok number) :
    0 < number ∧ number ≤ INT_MAX := by
  unfold optional at read
  split at read
  · exact positive_int _ _ GN_GT_0 (by decide) number read
  · cases read
    exact fine

theorem read_admits (argv : List Str) (numbers : Numbers) (read : readNumbers argv = .ok numbers) :
    Admits numbers := by
  unfold readNumbers at read
  split at read
  · cases read
  · obtain ⟨numAllocs, first, read⟩ := bind_ok _ _ _ read
    split at read
    · cases read
    · next few =>
        obtain ⟨blockSize, _, read⟩ := bind_ok _ _ _ read
        obtain ⟨freeStep, step, read⟩ := bind_ok _ _ _ read
        obtain ⟨freeMin, least, read⟩ := bind_ok _ _ _ read
        obtain ⟨freeMax, most, read⟩ := bind_ok _ _ _ read
        split at read
        · cases read
        · next inside =>
            cases read
            have some_ := positive_int _ _ GN_GT_0 (by decide) numAllocs first
            exact ⟨optional_positive argv 3 "step" 1 freeStep (by decide) step,
              optional_positive argv 4 "min" 1 freeMin (by decide) least,
              ⟨(optional_positive argv 5 "max" numAllocs freeMax some_ most).1,
                Int.not_lt.mp inside⟩,
              Int.not_lt.mp few⟩

example : readNumbers [literal "free_and_sbrk", literal "2", literal "1",
  literal "2147483647", literal "2"] =
    .ok ⟨2, 1, INT_MAX, 2, 2⟩ := by
  decide

inductive Ending where
  | finished
  | overflow (j : Int)
  | outside (j : Int)
  deriving DecidableEq

structure Outcome where
  freed : List Int
  ending : Ending
  deriving DecidableEq

def freeLoop (numbers : Admitted) (j : Int) : Outcome :=
  if j < numbers.1.freeMax then
    if j < 0 ∨ numbers.1.numAllocs ≤ j then ⟨[], .outside j⟩
    else if INT_MAX < j + numbers.1.freeStep then ⟨[j], .overflow j⟩
    else
      let rest := freeLoop numbers (j + numbers.1.freeStep)
      ⟨j :: rest.freed, rest.ending⟩
  else ⟨[], .finished⟩
termination_by (numbers.1.freeMax - j).toNat
decreasing_by
  have step := numbers.2.step
  omega

def freeBlocks (numbers : Admitted) : Outcome := freeLoop numbers (numbers.1.freeMin - 1)

/-- The part of `main` that is about the numbers. -/
def main (argv : List Str) : Except Str Outcome :=
  match read : readNumbers argv with
  | .error text => .error text
  | .ok numbers => .ok (freeBlocks ⟨numbers, read_admits argv numbers read⟩)

/-- The loop ends, and frees only allocated blocks, none of them twice. -/
structure Safe (numbers : Numbers) (outcome : Outcome) : Prop where
  ended : outcome.ending = .finished
  allocated : ∀ j ∈ outcome.freed, 0 ≤ j ∧ j < numbers.numAllocs
  once : outcome.freed.Nodup

-- by induction along the turns: a second turn means that the step is small, so only the first
-- one can overflow, and each index is larger than the one before
theorem loop_safe (numbers : Admitted) (j : Int) (start : 0 ≤ j)
    (fits : j < numbers.1.freeMax → j + numbers.1.freeStep ≤ INT_MAX) :
    Safe numbers.1 (freeLoop numbers j) ∧ ∀ k ∈ (freeLoop numbers j).freed, j ≤ k := by
  obtain ⟨step, _, most, allocated⟩ := numbers.2
  unfold MAX_ALLOCS at allocated
  unfold INT_MAX at fits
  fun_induction freeLoop numbers j with
  | case1 j more outside =>
      exfalso
      omega
  | case2 j more inside overflow =>
      exfalso
      unfold INT_MAX at overflow
      omega
  | case3 j more inside small rest ih =>
      obtain ⟨safe, later⟩ := ih (by omega) (by omega)
      refine ⟨⟨safe.ended, ?_, ?_⟩, ?_⟩
      · intro k member
        rcases List.mem_cons.mp member with rfl | inner
        · omega
        · exact safe.allocated k inner
      · refine List.nodup_cons.mpr ⟨fun again => ?_, safe.once⟩
        have := later j again
        omega
      · intro k member
        rcases List.mem_cons.mp member with rfl | inner
        · exact Int.le_refl _
        · have := later k inner
          omega
  | case4 j passed => exact ⟨⟨rfl, by simp, by simp⟩, by simp⟩

theorem loop_overflows (numbers : Admitted) (j : Int) (start : 0 ≤ j)
    (more : j < numbers.1.freeMax) (beyond : INT_MAX < j + numbers.1.freeStep) :
    freeLoop numbers j = ⟨[j], .overflow j⟩ := by
  have most := numbers.2.most
  rw [freeLoop, if_pos more, if_neg (by omega), if_pos beyond]

/-- The loop is safe unless its first step leaves the range of an int. -/
theorem blocks_freed_safely_iff (numbers : Admitted) :
    Safe numbers.1 (freeBlocks numbers) ↔
      numbers.1.freeMax < numbers.1.freeMin ∨
        numbers.1.freeMin - 1 + numbers.1.freeStep ≤ INT_MAX := by
  have least := numbers.2.least
  constructor
  · intro safe
    by_contra wide
    rw [not_or, Int.not_lt, Int.not_le] at wide
    have ended := safe.ended
    rw [freeBlocks, loop_overflows numbers _ (by omega) (by omega) wide.2] at ended
    cases ended
  · intro narrow
    exact (loop_safe numbers (numbers.1.freeMin - 1) (by omega) (by omega)).1

-- "free_and_sbrk 2 1 2147483647 2" frees the second block, and 1 + 2147483647 is no int.
theorem long_step_overflows : ¬ ∀ numbers : Admitted, Safe numbers.1 (freeBlocks numbers) := by
  intro claimed
  have ended := (claimed ⟨⟨2, 1, INT_MAX, 2, 2⟩,
    ⟨by decide, by decide, by decide, by decide⟩⟩).ended
  rw [freeBlocks, loop_overflows] at ended
  · cases ended
  · exact (show (0 : Int) ≤ 2 - 1 by decide)
  · exact (show (2 : Int) - 1 < 2 by decide)
  · exact (show INT_MAX < 2 - 1 + INT_MAX by decide)

end Tlpi.FreedBlocks

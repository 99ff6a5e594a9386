import Mathlib.Data.Int.Lemmas
import Tlpi.CStrings
import Tlpi.DecimalText

/-!
timers/demo_timerfd.c: the elapsed time that is displayed after each read from the timer. A
value that is stored in an int is reduced to 32 bits.
-/

namespace Tlpi.ElapsedTime

open CStrings DecimalText

structure timespec where
  tv_sec : Int
  tv_nsec : Int
  deriving DecidableEq

def toInt (number : Int) : Int := number.bmod (2 ^ 32)

/-- The two numbers that `printf` is given for `%d.%03d`. -/
structure Shown where
  secs : Int
  millisecs : Int
  deriving DecidableEq

def elapsed (start now : timespec) : Shown :=
  let secs := toInt (now.tv_sec - start.tv_sec)
  let nanosecs := toInt (now.tv_nsec - start.tv_nsec)
  let borrowed := if nanosecs < 0 then (secs - 1, nanosecs + 1000000000) else (secs, nanosecs)
  ⟨borrowed.1, (borrowed.2 + 500000).tdiv 1000000⟩

def Shown.text (shown : Shown) : Str :=
  printed shown.secs ++ literal "." ++ zeroPadded 3 shown.millisecs

/-- The lines for the expirations that are read, until there are enough of them. -/
def lines (maxExp : Nat) (start : timespec) (totalExp : Nat) : List (Nat × timespec) → List Str
  | [] => []
  | (numExp, now) :: rest =>
      if totalExp < maxExp then
        let totalExp := (totalExp + numExp) % 2 ^ 64
        ((elapsed start now).text ++ literal ": expirations read: " ++ decimal numExp ++
          literal "; total=" ++
          decimal totalExp ++ literal "\n") :: lines maxExp start totalExp rest
      else []

def nanoseconds (reading : timespec) : Int := 1000000000 * reading.tv_sec + reading.tv_nsec

/-- Two readings of the monotonic clock, the second not before the first. -/
structure Readings where
  start : timespec
  now : timespec
  normal : ∀ reading ∈ [start, now], 0 ≤ reading.tv_nsec ∧ reading.tv_nsec ≤ 999999999
  ordered : nanoseconds start ≤ nanoseconds now
  fits : now.tv_sec - start.tv_sec < 2 ^ 31

/-- The nanoseconds between two readings. -/
def Readings.apart (readings : Readings) : Int :=
  nanoseconds readings.now - nanoseconds readings.start

/-- The fraction has three digits, and the time is right to half a millisecond. -/
structure Accurate (readings : Readings) (shown : Shown) : Prop where
  digits : (zeroPadded 3 shown.millisecs).length = 3
  fraction : 0 ≤ shown.millisecs ∧ shown.millisecs ≤ 999
  near : (1000000000 * shown.secs + 1000000 * shown.millisecs - readings.apart).natAbs ≤ 500000

theorem to_int_small (number : Int) (least : -2 ^ 31 ≤ number) (most : number < 2 ^ 31) :
    toInt number = number :=
  Int.bmod_eq_of_le (by omega) (by omega)

/-- The borrow leaves the whole seconds and the nanoseconds beyond them. -/
theorem elapsed_apart (readings : Readings) :
    elapsed readings.start readings.now =
      ⟨readings.apart / 1000000000, (readings.apart % 1000000000 + 500000) / 1000000⟩ := by
  obtain ⟨⟨startSec, startNsec⟩, ⟨nowSec, nowNsec⟩, normal, ordered, fits⟩ := readings
  have first := normal _ List.mem_cons_self
  have second := normal _ (List.mem_cons_of_mem _ List.mem_cons_self)
  simp only [nanoseconds] at first second ordered fits
  simp only [elapsed, Readings.apart, nanoseconds]
  rw [to_int_small (nowSec - startSec) (by omega) (by omega),
      to_int_small (nowNsec - startNsec) (by omega) (by omega)]
  split
  · next borrow =>
      dsimp only
      rw [Int.tdiv_eq_ediv_of_nonneg (by omega)]
      congr 1
      · omega
      · congr 2
        omega
  · next plain =>
      dsimp only
      rw [Int.tdiv_eq_ediv_of_nonneg (by omega)]
      congr 1
      · omega
      · congr 2
        omega

/-- A fraction that is rounded up to a whole second is not carried into the seconds. -/
theorem shown_time_accurate_iff (readings : Readings) :
    Accurate readings (elapsed readings.start readings.now) ↔
      readings.apart % 1000000000 < 999500000 := by
  rw [elapsed_apart]
  constructor
  · rintro ⟨_, ⟨_, most⟩, _⟩
    dsimp only at most
    omega
  · intro below
    refine ⟨?_, ?_, ?_⟩
    · dsimp only
      rw [length_zero_padded 3 _ (by decide) (by omega)]
      omega
    · dsimp only
      omega
    · dsimp only
      omega

-- 0.9996 seconds are displayed as "0.1000".
theorem fraction_of_four_digits :
    ¬ ∀ readings : Readings, Accurate readings (elapsed readings.start readings.now) := by
  intro claimed
  have bad := (claimed ⟨⟨5, 0⟩, ⟨5, 999600000⟩, by decide, by decide, by decide⟩).digits
  revert bad
  decide

end Tlpi.ElapsedTime

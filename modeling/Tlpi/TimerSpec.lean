import Mathlib.Data.List.Basic
import Tlpi.CStrings
import Tlpi.DecimalText

/-!
timers/itimerspec_from_str.c: a timer setting from a string "sec[/nsec][:sec[/nsec]]". The copy
that `strdup` makes lies behind the memory of the caller, and `free` takes it away again.
-/

namespace Tlpi.TimerSpec

open CStrings DecimalText

def colon : UInt8 := 58
def slash : UInt8 := 47

structure timespec where
  tv_sec : Int
  tv_nsec : Int
  deriving DecidableEq

structure itimerspec where
  it_value : timespec
  it_interval : timespec
  deriving DecidableEq

/-- The seconds at a pointer and the nanoseconds behind a slash, which is overwritten. -/
def readHalf (memory : List UInt8) (p : Nat) : timespec × List UInt8 :=
  let sptr := strchr memory p slash
  let memory := sptr.elim memory (terminate memory)
  (⟨atoi (stringAt memory p), sptr.elim 0 fun sptr => atoi (stringAt memory (sptr + 1))⟩,
    memory)

def itimerspecFromStr (memory : List UInt8) (str : Nat) : itimerspec × List UInt8 :=
  let dupstr := memory.length
  let dup := memory ++ (stringAt memory str ++ [0])
  let cptr := strchr dup dupstr colon
  let dup := cptr.elim dup (terminate dup)
  let (value, dup) := readHalf dup dupstr
  let (interval, dup) := cptr.elim (⟨0, 0⟩, dup) fun cptr => readHalf dup (cptr + 1)
  (⟨value, interval⟩, dup.take memory.length)

/-! The documented format. -/

/-- A value of an int that is not negative. -/
abbrev Field := Fin (2 ^ 31)

structure Half where
  sec : Field
  nsec : Option Field

structure Setting where
  value : Half
  interval : Option Half

def Half.text (half : Half) : Str :=
  decimal half.sec ++ half.nsec.elim [] fun nsec => slash :: decimal nsec

def Setting.text (setting : Setting) : Str :=
  setting.value.text ++ setting.interval.elim [] fun interval => colon :: interval.text

def Half.spec (half : Half) : timespec :=
  ⟨(half.sec : Nat), half.nsec.elim 0 fun nsec => ((nsec : Nat) : Int)⟩

def Setting.spec (setting : Setting) : itimerspec :=
  ⟨setting.value.spec, setting.interval.elim ⟨0, 0⟩ Half.spec⟩

theorem decimal_without (sep : UInt8) (other : isdigit sep = false) (number : Nat) :
    sep ∉ decimal number := by
  intro member
  rw [decimal_digits number sep member] at other
  cases other

theorem atoi_field (field : Field) : atoi (decimal field) = (field : Nat) := by
  have small := field.isLt
  have solid : decimal field ≠ [] :=
    fun empty => Nat.toDigits_ne_nil (List.map_eq_nil_iff.mp empty)
  have digits :=
    strtol_digits (decimal field) [] solid (decimal_digits field) fun ch rest bad => by cases bad
  rw [List.append_nil, value_decimal] at digits
  rw [atoi, digits, Int.min_eq_left (by omega)]
  exact Int.bmod_eq_of_le (by omega) (by omega)

theorem half_without (sep : UInt8) (other : isdigit sep = false) (apart : sep ≠ slash)
    (half : Half) : sep ∉ half.text := by
  intro member
  rcases List.mem_append.mp member with first | second
  · exact decimal_without sep other half.sec first
  · cases given : half.nsec with
    | none =>
        rw [given] at second
        cases second
    | some nsec =>
        rw [given] at second
        rcases List.mem_cons.mp second with same | inside
        · exact apart same
        · exact decimal_without sep other nsec inside

/-- The writes of one half stay between its start and its end. -/
theorem half_read (memory : List UInt8) (p : Nat) (half : Half) (holds : Holds memory p half.text) :
    (readHalf memory p).1 = half.spec ∧
      (∀ q other, p + half.text.length < q → Holds memory q other →
        Holds (readHalf memory p).2 q other) ∧
      ∀ start ≤ p, (readHalf memory p).2.take start = memory.take start := by
  have plain := decimal_without slash (by decide) half.sec
  obtain ⟨sec, nsec⟩ := half
  cases nsec with
  | none =>
      have whole : Half.text ⟨sec, none⟩ = decimal sec := List.append_nil _
      rw [whole] at holds
      have missing : strchr memory p slash = none := by
        rw [holds_strchr memory p _ holds, (cut_none slash _).mpr plain]
        rfl
      simp only [readHalf, missing, Option.elim_none, holds_string memory p _ holds, atoi_field]
      exact ⟨rfl, fun q other _ kept => kept, fun start _ => trivial⟩
  | some nsec =>
      have whole : Half.text ⟨sec, some nsec⟩ = decimal sec ++ slash :: decimal nsec := rfl
      rw [whole] at holds ⊢
      have found : strchr memory p slash = some (p + (decimal sec).length) := by
        rw [holds_strchr memory p _ holds,
            (cut_some slash _ (decimal sec) (decimal nsec)).mpr ⟨rfl, plain⟩]
        rfl
      obtain ⟨front, back⟩ :=
        holds_terminate memory p _ holds (decimal sec) (decimal nsec) slash rfl
      simp only [readHalf, found, Option.elim_some, holds_string _ _ _ front,
        holds_string _ _ _ back, atoi_field]
      refine ⟨rfl, ?_, ?_⟩
      · intro q other beyond kept
        apply holds_behind memory q other kept
        rw [List.length_append] at beyond
        omega
      · intro start before
        exact List.take_set_of_le (by omega)

theorem setting_string (setting : Setting) : 0 ∉ setting.text := by
  have clean := half_without 0 (by decide) (by decide)
  intro member
  rcases List.mem_append.mp member with first | second
  · exact clean setting.value first
  · cases given : setting.interval with
    | none =>
        rw [given] at second
        cases second
    | some interval =>
        rw [given] at second
        rcases List.mem_cons.mp second with same | inside
        · cases same
        · exact clean interval inside

theorem settings_are_read_back (memory : List UInt8) (str : Nat) (setting : Setting)
    (holds : Holds memory str setting.text) :
    itimerspecFromStr memory str = (setting.spec, memory) := by
  have copied : Holds (memory ++ (setting.text ++ [0])) memory.length setting.text :=
    ⟨setting_string setting, [], List.drop_left⟩
  have kept : (memory ++ (setting.text ++ [0])).take memory.length = memory := List.take_left
  have plain := half_without colon (by decide) (by decide) setting.value
  rw [itimerspecFromStr, holds_string memory str _ holds]
  generalize memory ++ (setting.text ++ [0]) = dup at copied kept
  obtain ⟨value, interval⟩ := setting
  cases interval with
  | none =>
      have whole : Setting.text ⟨value, none⟩ = value.text := List.append_nil _
      rw [whole] at copied
      have missing : strchr dup memory.length colon = none := by
        rw [holds_strchr dup _ _ copied, (cut_none colon _).mpr plain]
        rfl
      obtain ⟨read, _, before⟩ := half_read dup memory.length value copied
      simp only [missing, Option.elim_none, read, before memory.length (Nat.le_refl _), kept]
      rfl
  | some interval =>
      have whole : Setting.text ⟨value, some interval⟩ = value.text ++ colon :: interval.text :=
        rfl
      rw [whole] at copied
      have found : strchr dup memory.length colon = some (memory.length + value.text.length) := by
        rw [holds_strchr dup _ _ copied,
            (cut_some colon _ value.text interval.text).mpr ⟨rfl, plain⟩]
        rfl
      obtain ⟨front, back⟩ :=
        holds_terminate dup memory.length _ copied value.text interval.text colon rfl
      obtain ⟨first, behind, before⟩ := half_read _ memory.length value front
      obtain ⟨second, _, early⟩ := half_read _ _ interval (behind _ _ (Nat.lt_succ_self _) back)
      simp only [found, Option.elim_some, first, second, early memory.length (by omega),
        before memory.length (Nat.le_refl _)]
      rw [terminate, List.take_set_of_le (by omega), kept]
      rfl

-- "3:4/5": the slash of the interval is not taken for one of the value.
theorem slash_of_interval_only :
    itimerspecFromStr (literal "3:4/5" ++ [0]) 0 =
      (⟨⟨3, 0⟩, ⟨4, 5⟩⟩, literal "3:4/5" ++ [0]) :=
  settings_are_read_back (literal "3:4/5" ++ [0]) 0 ⟨⟨3, none⟩, some ⟨4, some 5⟩⟩
    ⟨by decide, [], rfl⟩

end Tlpi.TimerSpec

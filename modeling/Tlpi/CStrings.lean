import Mathlib.Data.List.Basic
import Mathlib.Data.List.TakeWhile

/-!
Strings of C: literals as bytes, and strings in memory that end at the first null byte. A
pointer into a piece of memory is a position.
-/

namespace Tlpi.CStrings

abbrev Str := List UInt8

/-- The bytes of a literal of ASCII characters. -/
def literal (text : String) : Str := text.toList.map fun ch => UInt8.ofNat ch.toNat

/-- `toupper` in the C locale. -/
def toupper (byte : UInt8) : UInt8 := if 97 ≤ byte ∧ byte ≤ 122 then byte - 32 else byte

/-! Texts that are cut at a separator. -/

theorem split_cases (sep : UInt8) (text : Str) :
    (sep ∉ text ∧ text.splitOn sep = [text]) ∨
      ∃ first more, text = first ++ sep :: more ∧ sep ∉ first ∧
        text.splitOn sep = first :: more.splitOn sep := by
  by_cases inside : sep ∈ text
  · obtain ⟨first, more, rfl, absent⟩ := List.eq_append_cons_of_mem inside
    exact Or.inr ⟨first, more, rfl, absent,
      List.splitOn_append_cons_self_of_not_mem absent more⟩
  · exact Or.inl ⟨inside, List.splitOn_eq_singleton inside⟩

/-- What follows the first part: nothing, or the separator and the other parts. -/
theorem split_cons (sep : UInt8) (text first : Str) (others : List Str)
    (cut : text.splitOn sep = first :: others) :
    sep ∉ first ∧ (text = first ∧ others = [] ∨ ∃ more, text = first ++ sep :: more ∧
      more.splitOn sep = others) := by
  rcases split_cases sep text with ⟨absent, single⟩ | ⟨front, more, whole, absent, parts⟩
  · rw [cut] at single
    cases single
    exact ⟨absent, Or.inl ⟨rfl, rfl⟩⟩
  · rw [cut] at parts
    cases parts
    exact ⟨absent, Or.inr ⟨more, whole, rfl⟩⟩

theorem dropWhile_part (sep : UInt8) (first tail : Str) (absent : sep ∉ first)
    (ends : ∀ ch, tail.head? = some ch → ch = sep) :
    (first ++ tail).dropWhile (· ≠ sep) = tail := by
  rw [List.dropWhile_append_of_pos fun ch member => by
    rw [decide_eq_true_eq]
    rintro rfl
    exact absent member]
  cases tail with
  | nil => rfl
  | cons ch rest =>
      cases ends ch rfl
      exact List.dropWhile_cons_of_neg (by simp)

theorem takeWhile_part (sep : UInt8) (first tail : Str) (absent : sep ∉ first)
    (ends : ∀ ch, tail.head? = some ch → ch = sep) :
    (first ++ tail).takeWhile (· ≠ sep) = first := by
  rw [List.takeWhile_append_of_pos fun ch member => by
    rw [decide_eq_true_eq]
    rintro rfl
    exact absent member]
  cases tail with
  | nil => exact List.append_nil first
  | cons ch rest =>
      cases ends ch rfl
      rw [List.takeWhile_cons_of_neg (by simp), List.append_nil]

/-- A text before and after the first separator, if it has one. -/
def cut (sep : UInt8) : Str → Option (Str × Str)
  | [] => none
  | ch :: rest =>
      if ch = sep then some ([], rest) else (cut sep rest).map fun parts => (ch :: parts.1, parts.2)

theorem cut_none (sep : UInt8) (text : Str) : cut sep text = none ↔ sep ∉ text := by
  induction text with
  | nil => simp [cut]
  | cons ch rest ih =>
      rw [cut, List.mem_cons, not_or]
      split
      · next same => simp [same]
      · next other => rw [Option.map_eq_none_iff, ih, and_iff_right (Ne.symm other)]

theorem cut_some (sep : UInt8) (text first more : Str) :
    cut sep text = some (first, more) ↔ text = first ++ sep :: more ∧ sep ∉ first := by
  induction text generalizing first with
  | nil => simp [cut]
  | cons ch rest ih =>
      rw [cut]
      split
      · next same =>
          subst same
          cases first with
          | nil => simp
          | cons head tail =>
              simp only [Option.some.injEq, Prod.mk.injEq, reduceCtorEq, false_and,
                false_iff, not_and, not_not]
              intro whole
              rw [(List.cons.inj whole).1]
              exact List.mem_cons_self
      · next other =>
          cases first with
          | nil => simp [other]
          | cons head tail =>
              have later := ih tail
              simp only [Option.map_eq_some_iff, Prod.mk.injEq, List.cons.injEq, List.cons_append,
                List.mem_cons, not_or]
              constructor
              · rintro ⟨⟨front, back⟩, found, ⟨rfl, rfl⟩, rfl⟩
                obtain ⟨rfl, absent⟩ := later.mp found
                exact ⟨⟨rfl, rfl⟩, Ne.symm other, absent⟩
              · rintro ⟨⟨rfl, whole⟩, _, absent⟩
                exact ⟨(tail, more), later.mpr ⟨whole, absent⟩, ⟨rfl, rfl⟩, rfl⟩

/-! Strings in memory. -/

def stringAt (memory : List UInt8) (p : Nat) : Str := (memory.drop p).takeWhile (· ≠ 0)

def byteAt (memory : List UInt8) (p : Nat) : UInt8 := memory.getD p 0

/-- `strchr` for a character other than the null byte. -/
def strchr (memory : List UInt8) (p : Nat) (ch : UInt8) : Option Nat :=
  (cut ch (stringAt memory p)).map fun parts => p + parts.1.length

/-- Writes a null byte. -/
def terminate (memory : List UInt8) (p : Nat) : List UInt8 := memory.set p 0

/-- The string at a pointer, with its end in the memory. -/
def Holds (memory : List UInt8) (p : Nat) (text : Str) : Prop :=
  0 ∉ text ∧ ∃ beyond, memory.drop p = text ++ 0 :: beyond

section Memory
variable (memory : List UInt8) (p : Nat) (text : Str) (holds : Holds memory p text)
include holds

theorem holds_string : stringAt memory p = text := by
  obtain ⟨absent, beyond, whole⟩ := holds
  rw [stringAt, whole]
  exact takeWhile_part 0 text (0 :: beyond) absent (by simp)

theorem holds_strchr (ch : UInt8) :
    strchr memory p ch = (cut ch text).map fun parts => p + parts.1.length := by
  rw [strchr, holds_string memory p text holds]

/-- The byte at a pointer into the string, its end included. -/
theorem holds_byte (first rest : Str) (parts : text = first ++ rest) :
    byteAt memory (p + first.length) = rest.head?.getD 0 := by
  obtain ⟨_, beyond, whole⟩ := holds
  have here : memory[p + first.length]? = some (rest.head?.getD 0) := by
    rw [← List.getElem?_drop, whole, parts, List.append_assoc,
        List.getElem?_append_right (Nat.le_refl _), Nat.sub_self]
    cases rest <;> rfl
  rw [byteAt, List.getD_eq_getElem?_getD, here]
  rfl

/-- A null byte written over a separator makes two strings of one. -/
theorem holds_terminate (first more : Str) (sep : UInt8) (parts : text = first ++ sep :: more) :
    Holds (terminate memory (p + first.length)) p first ∧
      Holds (terminate memory (p + first.length)) (p + first.length + 1) more := by
  obtain ⟨absent, beyond, whole⟩ := holds
  subst parts
  rw [List.mem_append, List.mem_cons, not_or, not_or] at absent
  have after : (terminate memory (p + first.length)).drop p =
      first ++ 0 :: (more ++ 0 :: beyond) := by
    rw [terminate, List.drop_set, if_neg (by omega), Nat.add_sub_cancel_left,
      whole, List.append_assoc, List.set_append_right _ _ (Nat.le_refl _), Nat.sub_self]
    rfl
  refine ⟨⟨absent.1, _, after⟩, absent.2.2, beyond, ?_⟩
  rw [Nat.add_assoc, ← List.drop_drop, after, ← List.drop_drop, List.drop_left]
  rfl

/-- What lies behind a byte that is overwritten stays. -/
theorem holds_behind (before : Nat) (less : before < p) :
    Holds (terminate memory before) p text := by
  obtain ⟨absent, beyond, whole⟩ := holds
  refine ⟨absent, beyond, ?_⟩
  rw [terminate, List.drop_set_of_lt less, whole]

end Memory

end Tlpi.CStrings

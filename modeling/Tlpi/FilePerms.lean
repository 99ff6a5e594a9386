import Mathlib.Data.List.Basic
import Tlpi.CStrings

/-!
files/file_perms.c: the text that `ls -l` shows for a mask of file permissions. The text tells
the bits of the mask apart that it is about, those of set-user-ID, set-group-ID and sticky
only when they are asked for.
-/

namespace Tlpi.FilePerms

open CStrings (Str)

def S_ISUID : BitVec 32 := 0o4000#32
def S_ISGID : BitVec 32 := 0o2000#32
def S_ISVTX : BitVec 32 := 0o1000#32
def S_IRUSR : BitVec 32 := 0o400#32
def S_IWUSR : BitVec 32 := 0o200#32
def S_IXUSR : BitVec 32 := 0o100#32
def S_IRGRP : BitVec 32 := 0o40#32
def S_IWGRP : BitVec 32 := 0o20#32
def S_IXGRP : BitVec 32 := 0o10#32
def S_IROTH : BitVec 32 := 0o4#32
def S_IWOTH : BitVec 32 := 0o2#32
def S_IXOTH : BitVec 32 := 0o1#32

def FP_SPECIAL : BitVec 32 := 1#32

def bit (perm mask : BitVec 32) : Bool := perm &&& mask ≠ 0

/-- Three letters for one class of users; `on` and `off` stand for a special bit that is shown. -/
def letters (read write execute special : Bool) (on off : UInt8) : Str :=
  [if read then 114 else 45, if write then 119 else 45,
    if execute then (if special then on else 120) else if special then off else 45]

def filePermStr (perm flags : BitVec 32) : Str :=
  letters (bit perm S_IRUSR) (bit perm S_IWUSR) (bit perm S_IXUSR)
      (bit perm S_ISUID && bit flags FP_SPECIAL) 115 83 ++
    letters (bit perm S_IRGRP) (bit perm S_IWGRP) (bit perm S_IXGRP)
      (bit perm S_ISGID && bit flags FP_SPECIAL) 115 83 ++
    letters (bit perm S_IROTH) (bit perm S_IWOTH) (bit perm S_IXOTH)
      (bit perm S_ISVTX && bit flags FP_SPECIAL) 116 84

/-- The bits that the text is about. -/
def shown (flags : BitVec 32) : BitVec 32 := if bit flags FP_SPECIAL then 0o7777#32 else 0o777#32

theorem letters_injective (on off : UInt8) (kinds : on = 115 ∧ off = 83 ∨ on = 116 ∧ off = 84)
    (r w x s r' w' x' s' : Bool) :
    letters r w x s on off = letters r' w' x' s' on off ↔
      r = r' ∧ w = w' ∧ x = x' ∧ s = s' := by
  rcases kinds with ⟨rfl, rfl⟩ | ⟨rfl, rfl⟩ <;> revert r w x s r' w' x' s' <;> decide

theorem masked_or (p q a b : BitVec 32) :
    p &&& (a ||| b) = q &&& (a ||| b) ↔ p &&& a = q &&& a ∧ p &&& b = q &&& b := by
  constructor
  · intro same
    have bits (i : Nat) := congrArg (BitVec.getLsbD · i) same
    simp only [BitVec.getLsbD_and, BitVec.getLsbD_or] at bits
    have split : ∀ p q a b : Bool, (p && (a || b)) = (q && (a || b)) →
        (p && a) = (q && a) ∧ (p && b) = (q && b) := by
      decide
    refine ⟨BitVec.eq_of_getLsbD_eq fun i _ => ?_, BitVec.eq_of_getLsbD_eq fun i _ => ?_⟩
    · rw [BitVec.getLsbD_and, BitVec.getLsbD_and]
      exact (split _ _ _ _ (bits i)).1
    · rw [BitVec.getLsbD_and, BitVec.getLsbD_and]
      exact (split _ _ _ _ (bits i)).2
  · rintro ⟨one, two⟩
    rw [BitVec.and_or_distrib_left, one, two, ← BitVec.and_or_distrib_left]

theorem bit_masked (i : Nat) (p q : BitVec 32) :
    bit p (BitVec.twoPow 32 i) = bit q (BitVec.twoPow 32 i) ↔
      p &&& BitVec.twoPow 32 i = q &&& BitVec.twoPow 32 i := by
  rw [bit, bit, BitVec.and_twoPow, BitVec.and_twoPow]
  cases p.getLsbD i <;> cases q.getLsbD i
  · simp
  · simpa using (eq_comm : BitVec.twoPow 32 i = 0#32 ↔ 0#32 = BitVec.twoPow 32 i)
  · simp
  · simp

theorem classes_iff (a b c a' b' c' : Str) (first : a.length = a'.length)
    (second : b.length = b'.length) :
    a ++ b ++ c = a' ++ b' ++ c' ↔ a = a' ∧ b = b' ∧ c = c' := by
  rw [List.append_assoc, List.append_assoc]
  constructor
  · intro same
    obtain ⟨one, rest⟩ := List.append_inj same first
    exact ⟨one, List.append_inj rest second⟩
  · rintro ⟨rfl, rfl, rfl⟩
    rfl

/-- The text has nine letters, for which its buffer is large enough, and two masks have the same
text if and only if they agree on the bits that the text is about. -/
theorem text_tells_the_bits (perm other flags : BitVec 32) :
    (filePermStr perm flags).length = 9 ∧
      (filePermStr perm flags = filePermStr other flags ↔
        perm &&& shown flags = other &&& shown flags) := by
  refine ⟨rfl, ?_⟩
  have nine : 0o777#32 = S_IRUSR |||
    (S_IWUSR ||| (S_IXUSR ||| (S_IRGRP ||| (S_IWGRP ||| (S_IXGRP ||| (S_IROTH |||
      (S_IWOTH ||| S_IXOTH))))))) := by decide
  have twelve : 0o7777#32 = S_ISUID ||| (S_ISGID ||| (S_ISVTX ||| 0o777#32)) := by decide
  have each (mask : BitVec 32) (i : Nat) (single : mask = BitVec.twoPow 32 i) :
      perm &&& mask = other &&& mask ↔ bit perm mask = bit other mask := by
    rw [single]
    exact (bit_masked i perm other).symm
  have plain : perm &&& 0o777#32 = other &&& 0o777#32 ↔ (bit perm S_IRUSR = bit other S_IRUSR ∧
      bit perm S_IWUSR = bit other S_IWUSR ∧ bit perm S_IXUSR = bit other S_IXUSR ∧
      bit perm S_IRGRP = bit other S_IRGRP ∧
      bit perm S_IWGRP = bit other S_IWGRP ∧ bit perm S_IXGRP = bit other S_IXGRP ∧
      bit perm S_IROTH = bit other S_IROTH ∧
      bit perm S_IWOTH = bit other S_IWOTH ∧ bit perm S_IXOTH = bit other S_IXOTH) := by
    rw [nine]
    simp only [masked_or, each S_IRUSR 8 rfl, each S_IWUSR 7 rfl, each S_IXUSR 6 rfl,
      each S_IRGRP 5 rfl, each S_IWGRP 4 rfl, each S_IXGRP 3 rfl, each S_IROTH 2 rfl,
      each S_IWOTH 1 rfl, each S_IXOTH 0 rfl]
  rw [filePermStr, filePermStr]
  refine (classes_iff _ _ _ _ _ _ ?_ ?_).trans ?_
  · rfl
  · rfl
  rw [letters_injective _ _ (.inl ⟨rfl, rfl⟩), letters_injective _ _ (.inl ⟨rfl, rfl⟩),
    letters_injective _ _ (.inr ⟨rfl, rfl⟩)]
  -- the nine bits are shown in any case, the other three only with the flag
  cases special : bit flags FP_SPECIAL with
  | false =>
      rw [shown, special, if_neg Bool.false_ne_true, plain]
      simp only [Bool.and_false, and_true]
      tauto
  | true =>
      rw [shown, special, if_pos rfl, twelve, masked_or, masked_or, masked_or, plain,
        each S_ISUID 11 rfl, each S_ISGID 10 rfl, each S_ISVTX 9 rfl]
      simp only [Bool.and_true]
      tauto

example : filePermStr 0o4755#32 FP_SPECIAL = CStrings.literal "rwsr-xr-x" := by decide

end Tlpi.FilePerms

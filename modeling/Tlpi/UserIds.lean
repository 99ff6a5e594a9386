import Mathlib.Data.BitVec
import Tlpi.CStrings
import Tlpi.Numerals

/-!
users_groups/ugid_functions.c: `userIdFromName` and `groupIdFromName`. The password and the
group database are given by what `getpwnam` and `getgrnam` find in them; an ID is the bit
pattern of a `uid_t` or `gid_t`, and -1 among them means an error.
-/

namespace Tlpi.UserIds

open CStrings Numerals

abbrev Id := BitVec 32

/-- The body that the two functions share. -/
def idFromName (getnam : Str → Option Id) (name : Option Str) : Id :=
  match name with
  | none | some [] => -1#32
  | some text =>
      let u := strtol text 10
      if u.endptr = [] then BitVec.ofInt 32 u.value
      else
        match getnam text with
        | none => -1#32
        | some id => id

def userIdFromName (getpwnam : Str → Option Id) (name : Option Str) : Id :=
  idFromName getpwnam name

def groupIdFromName (getgrnam : Str → Option Id) (name : Option Str) : Id :=
  idFromName getgrnam name

/-- The ID is the one that the text says or that the database has for it. -/
structure Faithful (getnam : Str → Option Id) (text : Str) (id : Id) : Prop where
  meant : id ≠ -1#32 → Reads 10 text id.toNat ∨ getnam text = some id
  rejected : ∀ number, Reads 10 text number → (number < 0 ∨ 2 ^ 32 - 2 < number) →
    id = -1#32

/-- A numeral in range, or one that becomes -1 when it is narrowed. -/
def Narrows (text : Str) : Prop :=
  ∀ number, Reads 10 text number → (0 ≤ number ∧ number ≤ 2 ^ 32 - 2) ∨
    clamp number % 2 ^ 32 = 2 ^ 32 - 1

theorem narrowed (number : Int) :
    BitVec.ofInt 32 number = -1#32 ↔ number % 2 ^ 32 = 2 ^ 32 - 1 := by
  have ones : (-1#32).toNat = 2 ^ 32 - 1 := by decide
  rw [BitVec.toNat_eq, BitVec.toNat_ofInt, ones]
  omega

section Shared
variable (getnam : Str → Option Id) (text : Str)

/-- A numeral is narrowed, and any other text is looked up. -/
theorem id_of_numeral (number : Int) (reads : Reads 10 text number) :
    idFromName getnam (some text) = BitVec.ofInt 32 (clamp number) := by
  have converted := strtol_reads 10 (by decide) text number reads
  obtain ⟨first, rest, rfl⟩ :=
    List.exists_cons_of_ne_nil (reads_nonempty 10 (by decide) text number reads)
  simp [idFromName, converted]

theorem id_of_name (other : ∀ number, ¬ Reads 10 text number)
    (found : idFromName getnam (some text) ≠ -1#32) :
    getnam text = some (idFromName getnam (some text)) := by
  cases text with
  | nil => exact absurd rfl found
  | cons first rest =>
      have left : (strtol (first :: rest) 10).endptr ≠ [] := by
        intro ended
        obtain ⟨number, reads⟩ :=
          reads_of_endptr 10 (first :: rest) (List.cons_ne_nil first rest) ended
        exact other number reads
      simp only [idFromName, if_neg left] at found ⊢
      split at found
      · exact absurd rfl found
      · next id same => rw [same]

theorem narrows_faithful (narrows : Narrows text) :
    Faithful getnam text (idFromName getnam (some text)) := by
  constructor
  · intro found
    by_cases numeral : ∃ number, Reads 10 text number
    · obtain ⟨number, reads⟩ := numeral
      rw [id_of_numeral getnam text number reads] at found ⊢
      rcases narrows number reads with ⟨least, most⟩ | ones
      · have same : (BitVec.ofInt 32 (clamp number)).toNat = number := by
          rw [(clamp_fits number).mpr (by omega), BitVec.toNat_ofInt]
          omega
        rw [same]
        exact Or.inl reads
      · exact absurd ((narrowed _).mpr ones) found
    · exact Or.inr (id_of_name getnam text (not_exists.mp numeral) found)
  · intro number reads outside
    rw [id_of_numeral getnam text number reads, narrowed]
    rcases narrows number reads with inside | ones
    · omega
    · exact ones

theorem faithful_narrows (faithful : Faithful getnam text (idFromName getnam (some text))) :
    Narrows text := by
  intro number reads
  by_cases inside : 0 ≤ number ∧ number ≤ 2 ^ 32 - 2
  · exact Or.inl inside
  · have refused := faithful.rejected number reads (by omega)
    rw [id_of_numeral getnam text number reads, narrowed] at refused
    exact Or.inr refused

end Shared

/-- Both functions keep to what the text says unless narrowing hides that a number is out of
range. -/
theorem ids_are_faithful_iff (getpwnam getgrnam : Str → Option Id) (text : Str) :
    (Faithful getpwnam text (userIdFromName getpwnam (some text)) ↔ Narrows text) ∧
      (Faithful getgrnam text (groupIdFromName getgrnam (some text)) ↔ Narrows text) := by
  constructor
  · exact ⟨faithful_narrows getpwnam text, narrows_faithful getpwnam text⟩
  · exact ⟨faithful_narrows getgrnam text, narrows_faithful getgrnam text⟩

-- The number 2^32 is taken for the superuser.
theorem large_number_is_root :
    ¬ ∀ (getpwnam : Str → Option Id) (text : Str),
      Faithful getpwnam text (userIdFromName getpwnam (some text)) := by
  intro claimed
  have reads : Reads 10 (literal "4294967296") 4294967296 :=
    .unsigned [] (literal "4294967296") 4294967296 (by simp)
      (.plain 10 (literal "4294967296") (by decide) (List.all_eq_true.mp rfl))
  have bad := (claimed (fun _ => none) (literal "4294967296")).rejected 4294967296 reads (by decide)
  revert bad
  decide

end Tlpi.UserIds

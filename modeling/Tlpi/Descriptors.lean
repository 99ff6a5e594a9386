import Mathlib.Data.List.Basic

/-!
Tables of open descriptors. A table is a list with a gap at each unused number; every number
beyond its end is unused too. A new descriptor gets the lowest unused number, if that is within
the limit, when there is one.
-/

namespace Tlpi.Descriptors

universe u
variable {File : Type u}

def lookup (table : List (Option File)) (fd : Nat) : Option File := table[fd]?.getD none

def assign (fd : Nat) (entry : Option File) : List (Option File) → List (Option File)
  | [] => List.replicate fd none ++ [entry]
  | head :: rest =>
      match fd with
      | 0 => entry :: rest
      | fd + 1 => head :: assign fd entry rest

def close (fd : Nat) (table : List (Option File)) : List (Option File) := assign fd none table

/-- The lowest number that is not in use. -/
def lowest : List (Option File) → Nat
  | [] => 0
  | none :: _ => 0
  | some _ :: rest => lowest rest + 1

def within (limit : Option Nat) (fd : Nat) : Prop := ∀ bound ∈ limit, fd < bound

instance (limit : Option Nat) (fd : Nat) : Decidable (within limit fd) :=
  match limit with
  | none => .isTrue fun _ bad => by cases bad
  | some bound => decidable_of_iff (fd < bound) (by simp [within])

def allocate (limit : Option Nat) (file : File) (table : List (Option File)) :
    Option (Nat × List (Option File)) :=
  if within limit (lowest table) then some (lowest table, assign (lowest table) (some file) table)
  else none

def dup2 (limit : Option Nat) (oldfd newfd : Nat) (table : List (Option File)) :
    Option (Nat × List (Option File)) :=
  match lookup table oldfd with
  | none => none
  | some file => if within limit newfd then some (newfd, assign newfd (some file) table) else none

theorem lookup_assign (fd other : Nat) (entry : Option File) (table : List (Option File)) :
    lookup (assign fd entry table) other = if other = fd then entry else lookup table other := by
  induction table generalizing fd other with
  | nil =>
      unfold assign lookup
      rcases Nat.lt_trichotomy other fd with below | rfl | above
      · rw [if_neg (Nat.ne_of_lt below),
            List.getElem?_append_left (by rwa [List.length_replicate])]
        simp [below]
      · simp
      · have beyond : (List.replicate fd none ++ [entry]).length ≤ other := by
          rw [List.length_append, List.length_replicate]
          exact above
        rw [if_neg (Nat.ne_of_gt above), List.getElem?_eq_none beyond]
        rfl
  | cons head rest ih =>
      cases fd with
      | zero =>
          cases other with
          | zero => rfl
          | succ other => rfl
      | succ fd =>
          cases other with
          | zero => rfl
          | succ other =>
              have later := ih fd other
              unfold lookup at later ⊢
              rw [assign, List.getElem?_cons_succ, List.getElem?_cons_succ, later]
              simp only [Nat.add_right_cancel_iff]

theorem lookup_close (fd other : Nat) (table : List (Option File)) :
    lookup (close fd table) other = if other = fd then none else lookup table other :=
  lookup_assign fd other none table

theorem lowest_unused (table : List (Option File)) : lookup table (lowest table) = none := by
  induction table with
  | nil => rfl
  | cons head rest ih =>
      cases head with
      | none => rfl
      | some file => exact ih

theorem below_lowest (table : List (Option File)) (fd : Nat) (below : fd < lowest table) :
    lookup table fd ≠ none := by
  induction table generalizing fd with
  | nil => cases below
  | cons head rest ih =>
      cases head with
      | none => cases below
      | some file =>
          cases fd with
          | zero => exact Option.some_ne_none file
          | succ fd => exact ih fd (Nat.lt_of_succ_lt_succ below)

/-- A number that is unused while all below it are in use is the next to be given. -/
theorem lowest_eq (table : List (Option File)) (fd : Nat) (unused : lookup table fd = none)
    (full : ∀ other, other < fd → lookup table other ≠ none) : lowest table = fd := by
  rcases Nat.lt_trichotomy (lowest table) fd with below | same | above
  · exact absurd (lowest_unused table) (full _ below)
  · exact same
  · exact absurd unused (below_lowest table fd above)

theorem allocate_some (limit : Option Nat) (file : File) (before : List (Option File)) (fd : Nat)
    (after : List (Option File)) (taken : allocate limit file before = some (fd, after)) :
    fd = lowest before ∧ after = assign fd (some file) before := by
  rw [allocate, Option.ite_none_right_eq_some, Option.some.injEq, Prod.mk.injEq] at taken
  obtain ⟨_, rfl, rfl⟩ := taken
  exact ⟨rfl, rfl⟩

theorem dup2_some (limit : Option Nat) (oldfd newfd : Nat) (before : List (Option File)) (fd : Nat)
    (after : List (Option File)) (taken : dup2 limit oldfd newfd before = some (fd, after)) :
    fd = newfd ∧ ∃ file, lookup before oldfd = some file ∧
      after = assign newfd (some file) before := by
  unfold dup2 at taken
  split at taken
  · cases taken
  · next file there =>
      rw [Option.ite_none_right_eq_some, Option.some.injEq, Prod.mk.injEq] at taken
      obtain ⟨_, rfl, rfl⟩ := taken
      exact ⟨rfl, file, there, rfl⟩

theorem lookup_close_all (fds : List Nat) (table : List (Option File)) (other : Nat) :
    lookup (fds.foldl (fun table fd => close fd table) table) other =
      if other ∈ fds then none else lookup table other := by
  induction fds generalizing table with
  | nil => rfl
  | cons fd rest ih =>
      rw [List.foldl_cons, ih, lookup_close]
      by_cases later : other ∈ rest
      · rw [if_pos later, if_pos (List.mem_cons_of_mem fd later)]
      · by_cases here : other = fd
        · rw [if_neg later, if_pos here, if_pos (List.mem_cons.mpr (.inl here))]
        · rw [if_neg later, if_neg here, if_neg fun member => ?_]
          rcases List.mem_cons.mp member with same | member
          · exact here same
          · exact later member

end Tlpi.Descriptors

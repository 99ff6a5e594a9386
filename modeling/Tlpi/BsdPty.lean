import Mathlib.Data.List.Basic
import Tlpi.CStrings

/-!
pty/pty_master_open_bsd.c: a search for a free pseudoterminal by its name. The two loops are
compared with one search through the pairs of letters.
-/

namespace Tlpi.BsdPty

open CStrings (Str literal)

def PTYM_PREFIX : Str := literal "/dev/pty"
def PTYS_PREFIX : Str := literal "/dev/tty"
def PTY_PREFIX_LEN : Nat := 8
def PTY_NAME_LEN : Nat := PTY_PREFIX_LEN + 3
def X_RANGE : Str := literal "pqrstuvwxyzabcde"
def Y_RANGE : Str := literal "0123456789abcdef"

inductive Errno where
  | ENOENT
  | EOVERFLOW
  | other (number : Nat)
  deriving DecidableEq

/-- What `open` answers for each name, of which none is tried twice. -/
abbrev Answers := Str → Except Errno Nat

/-- `tried` are the names given to `open` so far, and `errno` is that of the last failure. -/
structure Tries where
  tried : List Str
  errno : Option Errno

structure Result where
  returns : Option (Nat × Str)
  tries : Tries

inductive Turn where
  | go (tries : Tries)
  | back (result : Result)

section Program
variable (answers : Answers) (snLen : Nat)

def masterName (x y : UInt8) : Str := PTYM_PREFIX ++ [x, y]

def slaveName (x y : UInt8) : Str := PTYS_PREFIX ++ [x, y]

def attempt (x y : UInt8) (tries : Tries) : Turn :=
  match answers (masterName x y) with
  | .error errno =>
      let more : Tries := ⟨tries.tried ++ [masterName x y], some errno⟩
      if errno = .ENOENT then .back ⟨none, more⟩ else .go more
  | .ok masterFd =>
      let more := tries.tried ++ [masterName x y]
      if snLen ≤ (slaveName x y).length then .back ⟨none, ⟨more, some .EOVERFLOW⟩⟩
      else .back ⟨some (masterFd, slaveName x y), ⟨more, tries.errno⟩⟩

def yLoop (x : UInt8) : Str → Tries → Turn
  | [], tries => .go tries
  | y :: rest, tries =>
      match attempt answers snLen x y tries with
      | .go more => yLoop x rest more
      | .back result => .back result

def xLoop : Str → Tries → Result
  | [], tries => ⟨none, tries⟩
  | x :: rest, tries =>
      match yLoop answers snLen x Y_RANGE tries with
      | .go more => xLoop rest more
      | .back result => result

def ptyMasterOpen : Result :=
  if snLen < PTY_NAME_LEN then ⟨none, ⟨[], some .EOVERFLOW⟩⟩
  else xLoop answers snLen X_RANGE ⟨[], none⟩

/-! One search through all pairs. -/

def pairs (xs : Str) : List (UInt8 × UInt8) := xs.flatMap fun x => Y_RANGE.map (x, ·)

def search : List (UInt8 × UInt8) → Tries → Result
  | [], tries => ⟨none, tries⟩
  | (x, y) :: rest, tries =>
      match attempt answers snLen x y tries with
      | .go more => search rest more
      | .back result => result

theorem search_row (x : UInt8) (ys : Str) (later : List (UInt8 × UInt8)) (tries : Tries) :
    search answers snLen (ys.map (x, ·) ++ later) tries =
      match yLoop answers snLen x ys tries with
      | .go more => search answers snLen later more
      | .back result => result := by
  induction ys generalizing tries with
  | nil => rfl
  | cons y rest ih =>
      rw [List.map_cons, List.cons_append, search, yLoop]
      cases attempt answers snLen x y tries with
      | go more => exact ih more
      | back result => rfl

theorem loop_searches (xs : Str) (tries : Tries) :
    xLoop answers snLen xs tries = search answers snLen (pairs xs) tries := by
  induction xs generalizing tries with
  | nil => rfl
  | cons x rest ih =>
      -- the inner loop runs through the row of `x`
      rw [pairs, List.flatMap_cons, search_row, xLoop]
      cases yLoop answers snLen x Y_RANGE tries with
      | go more => exact ih more
      | back result => rfl

end Program

/-- The name is in use, or cannot be opened for another reason, so the search goes on. -/
def Busy (answers : Answers) (pair : UInt8 × UInt8) : Prop :=
  ∃ errno, answers (masterName pair.1 pair.2) = .error errno ∧ errno ≠ .ENOENT

section Search
variable (answers : Answers) (snLen : Nat) (enough : PTY_NAME_LEN ≤ snLen)
include enough

/-- The name of the slave fits, so an opened master is not lost. -/
theorem attempt_opened (x y : UInt8) (tries : Tries) (masterFd : Nat)
    (opened : answers (masterName x y) = .ok masterFd) :
    attempt answers snLen x y tries =
      .back ⟨some (masterFd, slaveName x y),
        ⟨tries.tried ++ [masterName x y], tries.errno⟩⟩ := by
  have short : ¬ snLen ≤ (slaveName x y).length := Nat.not_le.mpr enough
  rw [attempt, opened]
  exact if_neg short

theorem search_some (list : List (UInt8 × UInt8)) (tries : Tries) (masterFd : Nat) (name : Str) :
    (search answers snLen list tries).returns = some (masterFd, name) ↔
      ∃ earlier x y later, list = earlier ++ (x, y) :: later ∧
        (∀ pair ∈ earlier, Busy answers pair) ∧
        answers (masterName x y) = .ok masterFd ∧ name = slaveName x y := by
  induction list generalizing tries with
  | nil => simp [search]
  | cons pair rest ih =>
      obtain ⟨x, y⟩ := pair
      rw [search]
      cases answer : answers (masterName x y) with
      | ok fd =>
          rw [attempt_opened answers snLen enough x y tries fd answer]
          -- any other first master would come later, after one that is not busy
          constructor
          · intro same
            cases same
            exact ⟨[], x, y, rest, rfl, fun _ bad => absurd bad List.not_mem_nil, answer, rfl⟩
          · rintro ⟨earlier, x', y', later, parts, busy, opened, rfl⟩
            cases earlier with
            | nil =>
                cases parts
                rw [answer] at opened
                cases opened
                rfl
            | cons first others =>
                cases parts
                obtain ⟨errno, failed, _⟩ := busy (x, y) List.mem_cons_self
                rw [answer] at failed
                cases failed
      | error errno =>
          by_cases last : errno = .ENOENT
          · -- the search ends here, and what it would find later has a missing name before it
            have stops : attempt answers snLen x y tries =
                .back ⟨none, ⟨tries.tried ++ [masterName x y], some errno⟩⟩ := by
              rw [attempt, answer]
              exact if_pos last
            rw [stops]
            constructor
            · intro bad
              cases bad
            · rintro ⟨earlier, x', y', later, parts, busy, opened, _⟩
              cases earlier with
              | nil =>
                  cases parts
                  rw [answer] at opened
                  cases opened
              | cons first others =>
                  cases parts
                  obtain ⟨errno', failed, on⟩ := busy (x, y) List.mem_cons_self
                  rw [answer] at failed
                  cases failed
                  exact absurd last on
          · have goes : attempt answers snLen x y tries =
                .go ⟨tries.tried ++ [masterName x y], some errno⟩ := by
              rw [attempt, answer]
              exact if_neg last
            rw [goes]
            refine (ih _).trans ⟨?_, ?_⟩
            · rintro ⟨earlier, x', y', later, rfl, busy, opened, named⟩
              refine ⟨(x, y) :: earlier, x', y', later, rfl, fun pair member => ?_,
                opened, named⟩
              rcases List.mem_cons.mp member with rfl | inside
              · exact ⟨errno, answer, last⟩
              · exact busy pair inside
            · rintro ⟨earlier, x', y', later, parts, busy, opened, named⟩
              cases earlier with
              | nil =>
                  cases parts
                  rw [answer] at opened
                  cases opened
              | cons first others =>
                  cases parts
                  exact ⟨others, x', y', later, rfl,
                    fun pair member => busy pair (List.mem_cons_of_mem _ member), opened, named⟩

/-- The names are opened in their order, and the search ends at the first that can be. -/
theorem search_tried (list : List (UInt8 × UInt8)) (tries : Tries) :
    ∃ opened, (search answers snLen list tries).tries.tried = tries.tried ++ opened ∧
      opened <+: list.map (fun pair => masterName pair.1 pair.2) ∧
      ∀ name ∈ opened, ∀ fd, answers name = .ok fd →
        ∃ slave, (search answers snLen list tries).returns = some (fd, slave) := by
  induction list generalizing tries with
  | nil =>
      exact ⟨[], (List.append_nil _).symm, List.nil_prefix,
        fun _ bad => absurd bad List.not_mem_nil⟩
  | cons pair rest ih =>
      obtain ⟨x, y⟩ := pair
      have one : [masterName x y] <+: ((x, y) :: rest).map fun pair => masterName pair.1 pair.2 :=
        ⟨rest.map fun pair => masterName pair.1 pair.2, rfl⟩
      rw [search]
      cases answer : answers (masterName x y) with
      | ok fd =>
          rw [attempt_opened answers snLen enough x y tries fd answer]
          refine ⟨[masterName x y], rfl, one, fun name member other opened =>
            ⟨slaveName x y, ?_⟩⟩
          rw [List.mem_singleton.mp member, answer] at opened
          cases opened
          rfl
      | error errno =>
          have unopened : ∀ fd, answers (masterName x y) ≠ .ok fd := fun fd bad => by
            rw [answer] at bad
            cases bad
          rw [attempt, answer]
          by_cases last : errno = .ENOENT
          · simp only [last, ↓reduceIte]
            refine ⟨[masterName x y], rfl, one, fun name member fd opened => ?_⟩
            exact absurd (List.mem_singleton.mp member ▸ opened) (unopened fd)
          · simp only [last, ↓reduceIte]
            obtain ⟨later, tried, ordered, result⟩ :=
              ih ⟨tries.tried ++ [masterName x y], some errno⟩
            refine ⟨masterName x y :: later, ?_, ?_, fun name member fd opened => ?_⟩
            · rw [tried, List.append_assoc, List.singleton_append]
            · rw [List.map_cons, List.prefix_cons_inj]
              exact ordered
            · rcases List.mem_cons.mp member with rfl | inside
              · exact absurd opened (unopened fd)
              · exact result name inside fd opened

end Search

/-- A result is the first master that can be opened, if no name before it is missing, with the
name of the slave that belongs to it. The names are opened in their order, and a descriptor that
one of them gave is the one that is returned. -/
theorem first_master_is_opened (answers : Answers) (snLen : Nat) :
    (∀ (masterFd : Nat) (name : Str),
      (ptyMasterOpen answers snLen).returns = some (masterFd, name) ↔
      PTY_NAME_LEN ≤ snLen ∧ ∃ earlier x y later,
      pairs X_RANGE = earlier ++ (x, y) :: later ∧
        (∀ pair ∈ earlier, Busy answers pair) ∧ answers (masterName x y) = .ok masterFd ∧
        name = slaveName x y) ∧
      (ptyMasterOpen answers snLen).tries.tried <+: (pairs X_RANGE).map
        (fun pair => masterName pair.1 pair.2) ∧
      ∀ name ∈ (ptyMasterOpen answers snLen).tries.tried, ∀ fd, answers name = .ok fd →
        ∃ slave, (ptyMasterOpen answers snLen).returns = some (fd, slave) := by
  rw [ptyMasterOpen]
  by_cases enough : PTY_NAME_LEN ≤ snLen
  · rw [if_neg (Nat.not_lt.mpr enough), loop_searches]
    obtain ⟨opened, tried, ordered, result⟩ :=
      search_tried answers snLen enough (pairs X_RANGE) ⟨[], none⟩
    rw [List.nil_append] at tried
    rw [tried]
    refine ⟨fun masterFd name => ?_, ordered, result⟩
    exact (search_some answers snLen enough (pairs X_RANGE) ⟨[], none⟩ masterFd name).trans
      ⟨fun found => ⟨enough, found⟩, fun found => found.2⟩
  · rw [if_pos (Nat.not_le.mp enough)]
    refine ⟨fun masterFd name => ⟨fun bad => ?_, fun bad => absurd bad.1 enough⟩,
      List.nil_prefix, fun _ bad => ?_⟩
    · cases bad
    · cases bad

end Tlpi.BsdPty

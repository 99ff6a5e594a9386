import Mathlib.Data.List.Basic
import Mathlib.Data.List.GetD
import Mathlib.Order.Lattice

/-!
A file as a row of cells that is written at any offset. What is skipped on the way to an offset
beyond the end is filled with blanks. A log of writes says what each cell holds: what was
written there last. Nothing here mentions a particular program.
-/

namespace Tlpi.RandomAccess

universe u
variable {Cell : Type u} (blank : Cell)

/-- `cells` written from `offset` on; to write nothing changes nothing. -/
def store (file : List Cell) (offset : Nat) (cells : List Cell) : List Cell :=
  if cells = [] then file
  else (file ++ List.replicate (offset - file.length) blank).take offset ++ cells ++
    file.drop (offset + cells.length)

def fetch (file : List Cell) (offset count : Nat) : List Cell := (file.drop offset).take count

structure Write (Cell : Type u) where
  offset : Nat
  cells : List Cell
  deriving DecidableEq

def Write.ending (write : Write Cell) : Nat :=
  if write.cells = [] then 0 else write.offset + write.cells.length

def Write.at (write : Write Cell) (place : Nat) : Option Cell :=
  if write.offset ≤ place then write.cells[place - write.offset]? else none

/-- What the last write that reaches a cell has put there; the newest write comes first. -/
def latest : List (Write Cell) → Nat → Option Cell
  | [], _ => none
  | write :: older, place => (write.at place).or (latest older place)

def extent (size : Nat) : List (Write Cell) → Nat
  | [] => size
  | write :: older => max (extent size older) write.ending

/-- The file that a log of writes leaves of `file`. -/
def replay (file : List Cell) : List (Write Cell) → List Cell
  | [] => file
  | write :: older => store blank (replay file older) write.offset write.cells

theorem store_length (file : List Cell) (write : Write Cell) :
    (store blank file write.offset write.cells).length = max file.length write.ending := by
  unfold store Write.ending
  split
  · exact (Nat.max_zero _).symm
  · next some_ =>
      have positive := List.length_pos_iff.mpr some_
      simp only [List.length_append, List.length_take, List.length_replicate, List.length_drop]
      omega

/-- A cell of the file is the one written, or the one that was there, or a blank. -/
theorem store_get (file : List Cell) (write : Write Cell) (place : Nat) :
    (store blank file write.offset write.cells).getD place blank =
      (write.at place).getD (file.getD place blank) := by
  unfold store Write.at
  split
  · next none => rw [none, List.getElem?_nil, ite_self, Option.getD_none]
  · next some_ =>
      have width : ((file ++ List.replicate (write.offset - file.length) blank).take
        write.offset).length =
          write.offset := by
        simp only [List.length_take, List.length_append, List.length_replicate]
        omega
      simp only [List.getD_eq_getElem?_getD]
      rcases Nat.lt_or_ge place write.offset with before | after
      · rw [if_neg (Nat.not_le.mpr before), Option.getD_none, List.append_assoc,
          List.getElem?_append_left (width.symm ▸ before), List.getElem?_take_of_lt before]
        rcases Nat.lt_or_ge place file.length with old | hole
        · rw [List.getElem?_append_left old]
        · rw [List.getElem?_append_right hole, List.getElem?_replicate_of_lt (by omega),
            List.getElem?_eq_none_iff.mpr hole, Option.getD_none, Option.getD_some]
      · rw [if_pos after, List.append_assoc, List.getElem?_append_right (by omega), width]
        rcases Nat.lt_or_ge (place - write.offset) write.cells.length with new | beyond
        · rw [List.getElem?_append_left new, List.getElem?_eq_getElem new, Option.getD_some,
              Option.getD_some]
        · have same : write.offset + write.cells.length +
              (place - write.offset - write.cells.length) = place := by omega
          rw [List.getElem?_append_right beyond, List.getElem?_drop, same,
            List.getElem?_eq_none_iff.mpr beyond, Option.getD_none]

theorem replay_length (file : List Cell) (log : List (Write Cell)) :
    (replay blank file log).length = extent file.length log := by
  induction log with
  | nil => rfl
  | cons write older ih => rw [replay, store_length, ih, extent]

/-- The last writer wins. -/
theorem replay_get (file : List Cell) (log : List (Write Cell)) (place : Nat) :
    (replay blank file log).getD place blank = (latest log place).getD (file.getD place blank) := by
  induction log with
  | nil => rfl
  | cons write older ih =>
      rw [replay, store_get, ih, latest]
      cases write.at place <;> rfl

/-- What is fetched is the last written, as far as the file reaches. -/
theorem fetch_replay (file : List Cell) (log : List (Write Cell)) (offset count : Nat) :
    fetch (replay blank file log) offset count =
      (List.range (min count (extent file.length log - offset))).map fun index =>
        (latest log (offset + index)).getD (file.getD (offset + index) blank) := by
  have length : (fetch (replay blank file log) offset count).length =
      min count (extent file.length log - offset) := by
    rw [fetch, List.length_take, List.length_drop, replay_length]
  refine List.ext_getElem (by rw [List.length_map, List.length_range, length]) fun index here _ =>
    ?_
  have inside : offset + index < (replay blank file log).length := by
    rw [replay_length]
    omega
  rw [List.getElem_map, List.getElem_range, ← replay_get, List.getD_eq_getElem _ _ inside]
  simp only [fetch, List.getElem_take, List.getElem_drop]

end Tlpi.RandomAccess

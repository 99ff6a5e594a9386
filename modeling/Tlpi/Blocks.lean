import Mathlib.Data.List.Basic

/-!
Blocks of memory cells whose accesses are checked: reading or writing a cell outside the
block is a fault, and so is reading a cell that nothing has been stored in.
-/

namespace Tlpi.Blocks

universe u
variable {Item : Type u}

inductive Cell (Item : Type u) where
  | undefined
  | value (item : Item)
  deriving DecidableEq

abbrev Block (Item : Type u) := List (Cell Item)

inductive Fault where
  | outside (index size : Nat)
  | undefined (index : Nat)
  deriving DecidableEq

/-- A block in which nothing has been stored. -/
def declare (count : Nat) : Block Item := List.replicate count .undefined

/-- A block of zeros. -/
def calloc (count : Nat) (zero : Item) : Block Item := List.replicate count (.value zero)

/-- What fits of the contents is kept. -/
def realloc (block : Block Item) (count : Nat) : Block Item :=
  block.take count ++ declare (count - block.length)

def load (block : Block Item) (index : Nat) : Except Fault Item :=
  match block[index]? with
  | none => .error (.outside index block.length)
  | some .undefined => .error (.undefined index)
  | some (.value item) => .ok item

def store (block : Block Item) (index : Nat) (item : Item) : Except Fault (Block Item) :=
  if index < block.length then .ok (block.set index (.value item))
  else .error (.outside index block.length)

theorem load_value (block : Block Item) (index : Nat) (item : Item)
    (there : block[index]? = some (.value item)) : load block index = .ok item := by
  rw [load, there]

theorem store_inside (block : Block Item) (index : Nat) (item : Item)
    (inside : index < block.length) :
    store block index item = .ok (block.set index (.value item)) := if_pos inside

theorem store_outside (block : Block Item) (index : Nat) (item : Item)
    (beyond : block.length ≤ index) :
    store block index item = .error (.outside index block.length) := if_neg (Nat.not_lt.mpr beyond)

theorem length_realloc (block : Block Item) (count : Nat) :
    (realloc block count).length = count := by
  simp only [realloc, declare, List.length_append, List.length_take, List.length_replicate]
  omega

end Tlpi.Blocks

import Mathlib.Data.List.Nodup
import Mathlib.Logic.Relation
import Mathlib.Order.Basic

/-!
Trees given by the parent of each node, over arbitrary nodes: how deep a node lies and
which ancestors it has. Nothing here mentions a particular program.
-/

namespace Tlpi.RootedTrees

universe u
variable {Node : Type u}

/-- `up child parent`; a node with a level is joined to the root by parents. -/
inductive Level (up : Node → Node → Prop) (root : Node) : Node → Nat → Prop where
  | root : Level up root root 0
  | child_of {child parent : Node} {depth : Nat} (link : up child parent)
      (higher : Level up root parent depth) :
      Level up root child (depth + 1)

structure Rooted (up : Node → Node → Prop) (root : Node) : Prop where
  one : Relator.RightUnique up
  top : ∀ parent, ¬ up root parent

abbrev Ancestor (up : Node → Node → Prop) : Node → Node → Prop := Relation.ReflTransGen up

theorem ancestor_root (up : Node → Node → Prop) (root node : Node) (depth : Nat)
    (level : Level up root node depth) : Ancestor up node root := by
  induction level with
  | root => exact Relation.ReflTransGen.refl
  | child_of link _ ih => exact Relation.ReflTransGen.head link ih

theorem ancestor_cases (up : Node → Node → Prop) (node above : Node) :
    Ancestor up node above ↔ above = node ∨ ∃ parent,
      up node parent ∧ Ancestor up parent above := by
  exact Relation.ReflTransGen.cases_head_iff.trans (or_congr_left eq_comm)

section Rooted
variable (up : Node → Node → Prop) (root : Node) (rooted : Rooted up root)
include rooted

theorem level_up (child parent : Node) (depth : Nat) (level : Level up root child depth)
    (link : up child parent) : ∃ higher, depth = higher + 1 ∧ Level up root parent higher := by
  cases level with
  | root => exact absurd link (rooted.top parent)
  | child_of other higher =>
      cases rooted.one other link
      exact ⟨_, rfl, higher⟩

theorem level_unique (node : Node) (depth other : Nat) (one : Level up root node depth)
    (two : Level up root node other) :
    depth = other := by
  induction one generalizing other with
  | root =>
      cases two with
      | root => rfl
      | child_of link => exact absurd link (rooted.top _)
  | child_of link _ ih =>
      obtain ⟨higher, rfl, level⟩ := level_up up root rooted _ _ other two link
      rw [ih higher level]

theorem ancestor_level (node above : Node) (depth : Nat) (level : Level up root node depth)
    (path : Ancestor up node above) :
    ∃ higher, higher ≤ depth ∧ Level up root above higher ∧
      (higher = depth → above = node) := by
  induction path with
  | refl => exact ⟨depth, Nat.le_refl depth, level, fun _ => rfl⟩
  | tail _ link ih =>
      obtain ⟨middle, less, here, _⟩ := ih
      obtain ⟨higher, rfl, there⟩ := level_up up root rooted _ _ middle here link
      exact ⟨higher, by omega, there, fun bad => by omega⟩

theorem same_level (above below : Node) (depth : Nat) (high : Level up root above depth)
    (low : Level up root below depth)
    (path : Ancestor up below above) : above = below := by
  obtain ⟨higher, _, level, same⟩ := ancestor_level up root rooted below above depth low path
  exact same (level_unique up root rooted above higher depth level high)

/-- A node has one ancestor at each level. -/
theorem ancestors_unique (node one two : Node) (depth : Nat) (first : Ancestor up node one)
    (second : Ancestor up node two)
    (here : Level up root one depth) (there : Level up root two depth) : one = two := by
  rcases Relation.ReflTransGen.total_of_right_unique rooted.one first second with path | path
  · exact (same_level up root rooted two one depth there here path).symm
  · exact same_level up root rooted one two depth here there path

end Rooted

end Tlpi.RootedTrees

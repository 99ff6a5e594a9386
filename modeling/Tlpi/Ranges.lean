import Mathlib.Algebra.Order.BigOperators.Group.List
import Mathlib.Algebra.Order.Ring.Int
import Mathlib.Data.Set.Lattice
import Mathlib.Order.CompletePartialOrder
import Mathlib.Order.Interval.Set.LinearOrder

/-!
Ranges given by a start and a length, handed out one after the other. Ranges that
tile an interval are disjoint and together are the interval.
-/

namespace Tlpi.Ranges

universe u
variable {Number : Type u} [AddCommGroup Number] [LinearOrder Number] [IsOrderedAddMonoid Number]

structure Range (Number : Type u) where
  start : Number
  length : Number
  deriving DecidableEq

def Range.numbers (range : Range Number) : Set Number :=
  Set.Ico range.start (range.start + range.length)

/-- The ranges follow each other without a gap from `first` to `last`. -/
def Tiles (first last : Number) : List (Range Number) → Prop
  | [] => first = last
  | range :: rest =>
      range.start = first ∧ 0 < range.length ∧ Tiles (first + range.length) last rest

omit [IsOrderedAddMonoid Number] in
theorem tiles_snoc (ranges : List (Range Number)) (first last : Number) (range : Range Number)
    (tiles : Tiles first last ranges) (start : range.start = last) (positive : 0 < range.length) :
    Tiles first (last + range.length) (ranges ++ [range]) := by
  induction ranges generalizing first with
  | nil =>
      cases tiles
      exact ⟨start, positive, rfl⟩
  | cons head rest ih =>
      obtain ⟨begins, long, later⟩ := tiles
      exact ⟨begins, long, ih _ later⟩

theorem tiles_le (ranges : List (Range Number)) (first last : Number)
    (tiles : Tiles first last ranges) : first ≤ last := by
  induction ranges generalizing first with
  | nil => exact tiles.le
  | cons head rest ih =>
      obtain ⟨_, long, later⟩ := tiles
      exact (le_add_of_nonneg_right long.le).trans (ih _ later)

omit [IsOrderedAddMonoid Number] in
theorem tiles_length (ranges : List (Range Number)) (first last : Number)
    (tiles : Tiles first last ranges) : last = first + (ranges.map Range.length).sum := by
  induction ranges generalizing first with
  | nil => simpa using (show first = last from tiles).symm
  | cons head rest ih =>
      obtain ⟨_, _, later⟩ := tiles
      rw [ih _ later, List.map_cons, List.sum_cons, add_assoc]

theorem tiles_cover (ranges : List (Range Number)) (first last : Number)
    (tiles : Tiles first last ranges) (number : Number) :
    number ∈ Set.Ico first last ↔ ∃ range ∈ ranges, number ∈ range.numbers := by
  induction ranges generalizing first with
  | nil =>
      cases tiles
      simp
  | cons head rest ih =>
      obtain ⟨begins, long, later⟩ := tiles
      have join : Set.Ico first (first + head.length) ∪ Set.Ico (first + head.length) last =
          Set.Ico first last :=
        Set.Ico_union_Ico_eq_Ico (le_add_of_nonneg_right long.le) (tiles_le rest _ _ later)
      have mine : head.numbers = Set.Ico first (first + head.length) := by
        rw [Range.numbers, begins]
      simp only [← join, Set.mem_union, ih _ later, List.mem_cons, exists_eq_or_imp, mine]

theorem tiles_disjoint (ranges : List (Range Number)) (first last : Number)
    (tiles : Tiles first last ranges) :
    ranges.Pairwise fun one other => Disjoint one.numbers other.numbers := by
  induction ranges generalizing first with
  | nil => exact List.Pairwise.nil
  | cons head rest ih =>
      obtain ⟨begins, _, later⟩ := tiles
      refine List.Pairwise.cons (fun other member => ?_) (ih _ later)
      rw [Set.disjoint_left]
      intro number mine theirs
      have beyond := (tiles_cover rest _ _ later number).mpr ⟨other, member, theirs⟩
      have before : number < head.start + head.length := mine.2
      rw [begins] at before
      exact absurd beyond.1 before.not_ge

end Tlpi.Ranges

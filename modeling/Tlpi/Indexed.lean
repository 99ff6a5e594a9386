import Mathlib.Algebra.BigOperators.Group.Finset.Basic
import Mathlib.Algebra.Group.Basic
import Mathlib.Algebra.Group.Int.Defs
import Mathlib.Algebra.Group.Nat.Defs
import Mathlib.Algebra.Order.BigOperators.Group.Finset
import Mathlib.Data.List.Basic
import Mathlib.Data.List.GetD
import Mathlib.Data.Nat.Cast.Defs

/-!
Lists used as arrays of processes or slots: what one update leaves in place,
how it changes a sum of weights, and what some of the entries add up to.
-/

namespace Tlpi.Indexed

universe u v
variable {Item : Type u}

/-- After an update at `index`, a position holds either the new item or what
it held before. -/
theorem set_cases (items : List Item) (index position : Nat) (new found : Item)
    (lookup : (items.set index new)[position]? = some found) :
    (position = index ∧ found = new) ∨
      (position ≠ index ∧ items[position]? = some found) := by
  by_cases same : index = position
  · subst same
    rw [List.getElem?_set_self'] at lookup
    cases old : items[index]? with
    | none => simp [old] at lookup
    | some previous =>
        simp only [old, Option.map_eq_map, Option.map_some, Option.some.injEq] at lookup
        exact Or.inl ⟨rfl, lookup.symm⟩
  · rw [List.getElem?_set_ne same] at lookup
    exact Or.inr ⟨fun eq => same eq.symm, lookup⟩

theorem set_self (items : List Item) (index : Nat) (old new : Item)
    (lookup : items[index]? = some old) : (items.set index new)[index]? = some new := by
  simp [List.getElem?_set_self', lookup]

theorem sum_set {M : Type v} [AddCommMonoid M] (weight : Item → M)
    (items : List Item) (index : Nat) (old new : Item) (lookup : items[index]? = some old) :
    ((items.set index new).map weight).sum + weight old =
      (items.map weight).sum + weight new := by
  induction items generalizing index with
  | nil => simp at lookup
  | cons head rest ih =>
      cases index with
      | zero =>
          simp only [List.getElem?_cons_zero, Option.some.injEq] at lookup
          subst lookup
          simp only [List.set_cons_zero, List.map_cons, List.sum_cons]
          rw [add_right_comm, add_comm (weight new), add_right_comm]
      | succ index =>
          have tail := ih index (by simpa using lookup)
          simp only [List.set_cons_succ, List.map_cons, List.sum_cons]
          rw [add_assoc, tail, add_assoc]

/-- An update that leaves a field alone. -/
theorem map_set_same {Field : Type v} (field : Item → Field) (items : List Item)
    (index : Nat) (old new : Item) (lookup : items[index]? = some old)
    (same : field new = field old) : (items.set index new).map field = items.map field := by
  obtain ⟨inside, rfl⟩ := List.getElem?_eq_some_iff.mp lookup
  rw [List.map_set, same, ← List.getElem_map field, List.set_getElem_self]
  rw [List.length_map]
  exact inside

/-- Different positions hold at most the whole sum. -/
theorem sum_distinct {M : Type v} [AddCommMonoid M] [PartialOrder M] [IsOrderedAddMonoid M]
    (items : List M) (positive : ∀ item ∈ items, 0 ≤ item) (indices : List Nat)
    (distinct : indices.Nodup) :
    (indices.map fun index => items.getD index 0).sum ≤ items.sum := by
  have whole : (List.range items.length).map (fun index => items.getD index 0) = items := by
    apply List.ext_getElem?
    intro index
    rcases Nat.lt_or_ge index items.length with inside | beyond
    · simp [inside, List.getD]
    · simp [beyond]
  have each : ∀ index, 0 ≤ items.getD index 0 := by
    intro index
    rcases Nat.lt_or_ge index items.length with inside | beyond
    · rw [List.getD_eq_getElem _ _ inside]
      exact positive _ (List.getElem_mem inside)
    · rw [List.getD_eq_default _ _ beyond]
  calc (indices.map fun index => items.getD index 0).sum
      = ∑ index ∈ indices.toFinset, items.getD index 0 := (List.sum_toFinset _ distinct).symm
    _ = ∑ index ∈ indices.toFinset ∩ Finset.range items.length, items.getD index 0 := by
        refine (Finset.sum_subset Finset.inter_subset_left fun index member outside => ?_).symm
        apply List.getD_eq_default
        by_contra inside
        exact outside (Finset.mem_inter.mpr ⟨member,
          Finset.mem_range.mpr (Nat.lt_of_not_le inside)⟩)
    _ ≤ ∑ index ∈ Finset.range items.length, items.getD index 0 :=
        Finset.sum_le_sum_of_subset_of_nonneg Finset.inter_subset_right fun index _ _ => each index
    _ = ((List.range items.length).map fun index => items.getD index 0).sum := by
        rw [← List.sum_toFinset _ List.nodup_range]
        exact Finset.sum_congr (by ext index; simp) fun _ _ => rfl
    _ = items.sum := by rw [whole]

/-- A change of one entry, where it is possible. -/
def update (items : List Item) (index : Nat) (change : Item → Option Item) : Option (List Item) :=
  items[index]?.bind fun item => (change item).map (items.set index)

theorem update_some (items after : List Item) (index : Nat) (change : Item → Option Item)
    (taken : update items index change = some after) :
    ∃ old new, items[index]? = some old ∧ change old = some new ∧
      after = items.set index new := by
  obtain ⟨old, there, changed⟩ := Option.bind_eq_some_iff.mp taken
  obtain ⟨new, here, rfl⟩ := Option.map_eq_some_iff.mp changed
  exact ⟨old, new, there, here, rfl⟩

theorem update_none (items : List Item) (index : Nat) (change : Item → Option Item)
    (stuck : update items index change = none) (item : Item) (there : items[index]? = some item) :
    change item = none := by
  rw [update, there] at stuck
  exact Option.map_eq_none_iff.mp stuck

/-- Weights of one and zero count. -/
theorem sum_indicator {M : Type v} [AddCommMonoidWithOne M] (holds : Item → Bool)
    (weight : Item → M) (items : List Item)
    (each : ∀ item ∈ items, weight item = if holds item then 1 else 0) :
    (items.map weight).sum = (items.countP holds : M) := by
  induction items with
  | nil => exact Nat.cast_zero.symm
  | cons head rest ih =>
      have tail := ih fun item member => each item (List.mem_cons_of_mem head member)
      rw [List.map_cons, List.sum_cons, each head List.mem_cons_self, tail]
      cases counted : holds head with
      | false => simp [counted]
      | true => simp [counted, add_comm]

end Tlpi.Indexed

import Mathlib.Data.List.Basic
import Mathlib.Data.List.Nodup

/-!
A list of records read as a map: the first record with a given key answers.
Replacing, deleting and appending at a found position change exactly one key,
provided that no key occurs twice.
-/

namespace Tlpi.Keyed

universe u v
variable {Item : Type u} {Key : Type v} [DecidableEq Key] (key : Item → Key)

def lookup (items : List Item) (wanted : Key) : Option Item :=
  items.find? fun item => key item == wanted

def position (items : List Item) (wanted : Key) : Option Nat :=
  items.findIdx? fun item => key item == wanted

def Distinct (items : List Item) : Prop := (items.map key).Nodup

theorem lookup_cons (head : Item) (rest : List Item) (wanted : Key) :
    lookup key (head :: rest) wanted =
      if key head = wanted then some head else lookup key rest wanted := by
  by_cases hit : key head = wanted <;> simp [lookup, hit]

theorem position_cons (head : Item) (rest : List Item) (wanted : Key) :
    position key (head :: rest) wanted =
      if key head = wanted then some 0 else (position key rest wanted).map (· + 1) := by
  by_cases hit : key head = wanted <;> simp [position, List.findIdx?_cons, hit]

theorem lookup_absent (items : List Item) (wanted : Key) (absent : wanted ∉ items.map key) :
    lookup key items wanted = none := by
  rw [lookup, List.find?_eq_none]
  intro item member hit
  exact absent (List.mem_map.mpr ⟨item, member, beq_iff_eq.mp hit⟩)

theorem position_absent (items : List Item) (wanted : Key)
    (missing : position key items wanted = none) : wanted ∉ items.map key := by
  intro member
  obtain ⟨item, inside, same⟩ := List.mem_map.mp member
  have miss := List.findIdx?_eq_none_iff.mp missing item inside
  simp [same] at miss

theorem position_item (items : List Item) (wanted : Key) (index : Nat)
    (found : position key items wanted = some index) :
    ∃ item, items[index]? = some item ∧ key item = wanted := by
  induction items generalizing index with
  | nil => simp [position] at found
  | cons head rest ih =>
      rw [position_cons] at found
      split at found
      · next hit =>
          cases found
          exact ⟨head, rfl, hit⟩
      · obtain ⟨before, earlier, rfl⟩ := Option.map_eq_some_iff.mp found
        simpa using ih before earlier

theorem lookup_set (items : List Item) (wanted : Key) (index : Nat) (new : Item)
    (found : position key items wanted = some index) (same : key new = wanted) (asked : Key) :
    lookup key (items.set index new) asked =
      if asked = wanted then some new else lookup key items asked := by
  induction items generalizing index with
  | nil => simp [position] at found
  | cons head rest ih =>
      rw [position_cons] at found
      split at found
      · next hit =>
          cases found
          rw [List.set_cons_zero, lookup_cons, lookup_cons, same, hit]
          by_cases here : asked = wanted
          · simp [here]
          · simp [here, Ne.symm here]
      · next miss =>
          obtain ⟨before, earlier, rfl⟩ := Option.map_eq_some_iff.mp found
          rw [List.set_cons_succ, lookup_cons, lookup_cons, ih before earlier]
          by_cases here : asked = wanted
          · subst here
            simp [miss]
          · simp [here]

theorem keys_set (items : List Item) (wanted : Key) (index : Nat) (new : Item)
    (found : position key items wanted = some index) (same : key new = wanted) :
    (items.set index new).map key = items.map key := by
  induction items generalizing index with
  | nil => simp [position] at found
  | cons head rest ih =>
      rw [position_cons] at found
      split at found
      · next hit =>
          cases found
          simp [same, hit]
      · obtain ⟨before, earlier, rfl⟩ := Option.map_eq_some_iff.mp found
        simp [ih before earlier]

theorem lookup_erase (items : List Item) (wanted : Key) (index : Nat)
    (distinct : Distinct key items) (found : position key items wanted = some index) (asked : Key) :
    lookup key (items.eraseIdx index) asked =
      if asked = wanted then none else lookup key items asked := by
  induction items generalizing index with
  | nil => simp [position] at found
  | cons head rest ih =>
      obtain ⟨fresh, tail⟩ := List.nodup_cons.mp distinct
      rw [position_cons] at found
      split at found
      · next hit =>
          cases found
          rw [List.eraseIdx_cons_zero, lookup_cons]
          by_cases here : asked = wanted
          · subst here
            rw [if_pos rfl]
            exact lookup_absent key rest asked (hit ▸ fresh)
          · simp [here, hit, Ne.symm here]
      · next miss =>
          obtain ⟨before, earlier, rfl⟩ := Option.map_eq_some_iff.mp found
          rw [List.eraseIdx_cons_succ, lookup_cons, lookup_cons, ih before tail earlier]
          by_cases here : asked = wanted
          · subst here
            simp [miss]
          · simp [here]

omit [DecidableEq Key] in
theorem distinct_erase (items : List Item) (index : Nat) (distinct : Distinct key items) :
    Distinct key (items.eraseIdx index) :=
  distinct.sublist ((List.eraseIdx_sublist items index).map key)

theorem lookup_append (items : List Item) (new : Item)
    (fresh : position key items (key new) = none) (asked : Key) :
    lookup key (items ++ [new]) asked =
      if asked = key new then some new else lookup key items asked := by
  have absent := position_absent key items (key new) fresh
  have single : lookup key [new] asked = if key new = asked then some new else none := by
    rw [lookup_cons]
    rfl
  rw [lookup, List.find?_append]
  change (lookup key items asked).or (lookup key [new] asked) = _
  rw [single]
  by_cases here : asked = key new
  · subst here
    rw [lookup_absent key items _ absent]
    simp
  · simp [here, Ne.symm here]

theorem distinct_append (items : List Item) (new : Item) (distinct : Distinct key items)
    (fresh : position key items (key new) = none) : Distinct key (items ++ [new]) := by
  have absent := position_absent key items (key new) fresh
  rw [Distinct, List.map_append, List.map_singleton]
  exact List.nodup_append.mpr ⟨distinct, List.nodup_singleton _, by
    intro a inside b last same
    rw [List.mem_singleton] at last
    exact absent (last ▸ same ▸ inside)⟩

end Tlpi.Keyed

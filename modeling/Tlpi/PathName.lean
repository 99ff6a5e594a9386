import Mathlib.Data.List.Basic

/-!
Pathnames as strings with a separator. A string lies below another one when it
is that string or continues it after a separator; moving a subtree replaces the
leading part of every string below the old name.
-/

namespace Tlpi.PathName

universe u
variable {α : Type u} [DecidableEq α] (sep : α)

def join (dir name : List α) : List α := dir ++ sep :: name

def Below (dir path : List α) : Prop := path = dir ∨ ∃ rest, path = dir ++ sep :: rest

/-- The leading part agrees and the string ends there or goes on after a separator. -/
def covers (dir path : List α) : Bool :=
  path.take dir.length == dir &&
    match path[dir.length]? with
    | none => true
    | some next => next == sep

/-- A directory entry's name. -/
def Simple (name : List α) : Prop := name ≠ [] ∧ sep ∉ name

/-- A string cut at its last separator. -/
def split : List α → Option (List α × List α)
  | [] => none
  | first :: rest =>
      match split rest with
      | some (dir, name) => some (first :: dir, name)
      | none => if first = sep then some ([], rest) else none

def reroot (old new path : List α) : List α := new ++ path.drop old.length

theorem covers_iff (dir path : List α) : covers sep dir path = true ↔ Below sep dir path := by
  unfold covers
  rw [Bool.and_eq_true, beq_iff_eq]
  constructor
  · rintro ⟨leading, next⟩
    have whole : path = dir ++ path.drop dir.length := by
      conv_lhs => rw [← List.take_append_drop dir.length path, leading]
    cases after : path[dir.length]? with
    | none =>
        have short : path.length ≤ dir.length := List.getElem?_eq_none_iff.mp after
        rw [List.drop_eq_nil_of_le short, List.append_nil] at whole
        exact Or.inl whole
    | some letter =>
        rw [after] at next
        obtain ⟨bound, here⟩ := List.getElem?_eq_some_iff.mp after
        rw [List.drop_eq_getElem_cons bound, here, beq_iff_eq.mp next] at whole
        exact Or.inr ⟨_, whole⟩
  · rintro (rfl | ⟨rest, rfl⟩)
    · simp
    · simp

instance (dir path : List α) : Decidable (Below sep dir path) :=
  decidable_of_iff _ (covers_iff sep dir path)

omit [DecidableEq α] in
theorem below_refl (path : List α) : Below sep path path := Or.inl rfl

omit [DecidableEq α] in
theorem below_trans (first second third : List α) (upper : Below sep first second)
    (lower : Below sep second third) : Below sep first third := by
  rcases upper with rfl | ⟨rest, rfl⟩
  · exact lower
  · rcases lower with rfl | ⟨more, rfl⟩
    · exact Or.inr ⟨rest, rfl⟩
    · exact Or.inr ⟨rest ++ sep :: more, by simp⟩

omit [DecidableEq α] in
theorem below_join (dir name : List α) : Below sep dir (join sep dir name) :=
  Or.inr ⟨name, rfl⟩

omit [DecidableEq α] in
theorem below_length (dir path : List α) (below : Below sep dir path) :
    dir.length ≤ path.length := by
  rcases below with rfl | ⟨rest, rfl⟩
  · exact Nat.le_refl _
  · simp

omit [DecidableEq α] in
theorem below_antisymm (first second : List α) (forth : Below sep first second)
    (back : Below sep second first) : first = second := by
  rcases forth with rfl | ⟨rest, rfl⟩
  · rfl
  · have longer := below_length sep _ _ back
    simp only [List.length_append, List.length_cons] at longer
    omega

omit [DecidableEq α] in
theorem join_ne (dir name : List α) : join sep dir name ≠ dir := by
  intro same
  have lengths := congrArg List.length same
  simp [join] at lengths

omit [DecidableEq α] in
theorem not_below_join (dir name : List α) : ¬ Below sep (join sep dir name) dir := fun below =>
  join_ne sep dir name (below_antisymm sep _ _ below (below_join sep dir name))

omit [DecidableEq α] in
/-- Two names above one string lie one above the other. -/
theorem below_comparable (first second path : List α) (one : Below sep first path)
    (other : Below sep second path) : Below sep first second ∨ Below sep second first := by
  induction first generalizing second path with
  | nil =>
      cases second with
      | nil => exact Or.inl (Or.inl rfl)
      | cons head tail =>
          rcases one with rfl | ⟨rest, rfl⟩
          · rcases other with same | ⟨more, same⟩ <;> simp at same
          · rcases other with same | ⟨more, same⟩
            · exact Or.inl (Or.inr ⟨rest, same.symm⟩)
            · obtain ⟨rfl, _⟩ := List.cons.inj same
              exact Or.inl (Or.inr ⟨tail, rfl⟩)
  | cons head tail ih =>
      cases second with
      | nil =>
          rcases other with rfl | ⟨more, rfl⟩
          · rcases one with same | ⟨rest, same⟩ <;> simp at same
          · rcases one with same | ⟨rest, same⟩
            · exact Or.inr (Or.inr ⟨more, same.symm⟩)
            · obtain ⟨rfl, _⟩ := List.cons.inj same
              exact Or.inr (Or.inr ⟨tail, rfl⟩)
      | cons top body =>
          have cut : ∀ start : List α, ∀ letter, Below sep (letter :: start) path →
              ∃ after, path = letter :: after ∧ Below sep start after := by
            rintro start letter (rfl | ⟨rest, rfl⟩)
            · exact ⟨start, rfl, Or.inl rfl⟩
            · exact ⟨start ++ sep :: rest, rfl, Or.inr ⟨rest, rfl⟩⟩
          obtain ⟨after, rfl, upper⟩ := cut tail head one
          obtain ⟨after', same, lower⟩ := cut body top other
          obtain ⟨rfl, rfl⟩ := List.cons.inj same
          rcases ih body after upper lower with below | below
          · refine Or.inl (below.imp (fun same => by rw [same]) ?_)
            rintro ⟨rest, rfl⟩
            exact ⟨rest, rfl⟩
          · refine Or.inr (below.imp (fun same => by rw [same]) ?_)
            rintro ⟨rest, rfl⟩
            exact ⟨rest, rfl⟩

omit [DecidableEq α] in
/-- What lies above an entry of a directory lies above the directory. -/
theorem below_join_cases (dir path name : List α) (simple : sep ∉ name)
    (below : Below sep dir (join sep path name)) :
    dir = join sep path name ∨ Below sep dir path := by
  rcases below_comparable sep dir path _ below (below_join sep path name) with upper | lower
  · exact Or.inr upper
  · rcases lower with rfl | ⟨rest, rfl⟩
    · exact Or.inr (below_refl sep _)
    · rcases below with same | ⟨more, same⟩
      · exact Or.inl same.symm
      · -- a separator would stand inside the name
        have tails : name = rest ++ sep :: more := by
          simpa [join, List.append_assoc] using same
        exact absurd (by rw [tails]; simp) simple

omit [DecidableEq α] in
theorem join_inj (dir path name other : List α) (simple : sep ∉ name) (plain : sep ∉ other)
    (same : join sep dir name = join sep path other) : dir = path ∧ name = other := by
  have dirs : dir = path := by
    have upper : Below sep dir (join sep path other) := same ▸ below_join sep dir name
    have lower : Below sep path (join sep dir name) := same ▸ below_join sep path other
    rcases below_join_cases sep dir path other plain upper with hit | above
    · exact absurd (hit.trans same.symm).symm (join_ne sep dir name)
    · rcases below_join_cases sep path dir name simple lower with hit | below
      · exact absurd (hit.trans same).symm (join_ne sep path other)
      · exact below_antisymm sep _ _ above below
  subst dirs
  exact ⟨rfl, by simpa [join] using same⟩

theorem split_join (dir name : List α) (simple : sep ∉ name) :
    split sep (join sep dir name) = some (dir, name) := by
  have plain : ∀ letters : List α, sep ∉ letters → split sep letters = none := by
    intro letters absent
    induction letters with
    | nil => rfl
    | cons first rest ih =>
        rw [List.mem_cons, not_or] at absent
        rw [split, ih absent.2]
        exact if_neg (Ne.symm absent.1)
  unfold join
  induction dir with
  | nil => rw [List.nil_append, split, plain name simple]; exact if_pos rfl
  | cons first rest ih => rw [List.cons_append, split, ih]

theorem split_none (path : List α) (missing : split sep path = none) : sep ∉ path := by
  induction path with
  | nil => simp
  | cons first rest ih =>
      rw [split] at missing
      split at missing
      · cases missing
      · next absent =>
          split at missing
          · cases missing
          · next other =>
              rw [List.mem_cons, not_or]
              exact ⟨Ne.symm other, ih absent⟩

theorem split_some (path dir name : List α) (cut : split sep path = some (dir, name)) :
    path = join sep dir name ∧ sep ∉ name := by
  induction path generalizing dir with
  | nil => cases cut
  | cons first rest ih =>
      rw [split] at cut
      split at cut
      · next start tail found =>
          cases cut
          obtain ⟨whole, simple⟩ := ih start found
          exact ⟨by rw [whole]; rfl, simple⟩
      · next missing =>
          split at cut
          · next here =>
              cases cut
              exact ⟨by rw [here]; rfl, split_none sep _ missing⟩
          · cases cut

omit [DecidableEq α] in
theorem reroot_append (old new rest : List α) : reroot old new (old ++ rest) = new ++ rest := by
  simp [reroot]

omit [DecidableEq α] in
theorem reroot_below (old new path : List α) (below : Below sep old path) :
    Below sep new (reroot old new path) := by
  rcases below with rfl | ⟨rest, rfl⟩
  · exact Or.inl (by simp [reroot])
  · exact Or.inr ⟨rest, reroot_append old new _⟩

omit [DecidableEq α] in
theorem reroot_back (old new path : List α) (below : Below sep old path) :
    reroot new old (reroot old new path) = path := by
  rcases below with rfl | ⟨rest, rfl⟩
  · simp [reroot]
  · simp [reroot]

omit [DecidableEq α] in
theorem reroot_join (old new dir name : List α) (below : Below sep old dir) :
    reroot old new (join sep dir name) = join sep (reroot old new dir) name := by
  rcases below with rfl | ⟨rest, rfl⟩
  · simp [reroot, join]
  · simp [reroot, join]

end Tlpi.PathName

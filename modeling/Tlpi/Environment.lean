import Mathlib.Data.List.Basic

/-!
proc/setenv.c: `setenv` and `unsetenv` on the array that `environ` points to. A string is
the list of its bytes, a null pointer is `none`, and a pointer into the array is the part of
the array that begins there. `getenv` and `putenv` are those of the C library. The array ends
with a null pointer. Where `environ` is itself null, as after `clearenv`, there is no array
and the loop of `unsetenv` crashes; what is said of the results needs `none ∈ environ`.
-/

namespace Tlpi.Environment

abbrev Str := List UInt8

/-- The character '='. -/
def equals : UInt8 := 61

/-- The entries up to the terminating null pointer. -/
def entries : List (Option Str) → List Str
  | some entry :: rest => entry :: entries rest
  | _ => []

/-- `strncmp(entry, name, len) == 0 && entry[len] == '='` with the length of the name. -/
def names (name entry : Str) : Bool :=
  entry.take name.length = name ∧ entry[name.length]? = some equals

/-- `for (sp = ep; *sp != NULL; sp++) *sp = *(sp + 1)`. -/
def shift : List (Option Str) → List (Option Str)
  | some _ :: next :: rest => next :: shift (next :: rest)
  | [some _] => [none]
  | sp => sp

theorem entries_shift (entry : Str) (rest : List (Option Str)) :
    entries (shift (some entry :: rest)) = entries rest := by
  induction rest generalizing entry with
  | nil => rfl
  | cons next rest ih =>
      cases next with
      | none => rfl
      | some other => exact congrArg (other :: ·) (ih other)

/-- The loop of `unsetenv` from `ep` on. Without a null pointer ahead the source reads past
the array. -/
def unsetLoop (name : Str) (ep : List (Option Str)) : List (Option Str) :=
  match ep with
  | some entry :: rest =>
      if names name entry then unsetLoop name (shift (some entry :: rest))
      else some entry :: unsetLoop name rest
  | ep => ep
termination_by (entries ep).length
decreasing_by
  · rw [entries_shift, entries]
    exact Nat.lt_succ_self _
  · rw [entries]
    exact Nat.lt_succ_self _

/-- Neither null, nor empty, nor with an '=' in it. -/
def validName (name : Option Str) : Bool := name.any fun name => name ≠ [] && equals ∉ name

def unsetenv (name : Option Str) (environ : List (Option Str)) : Int × List (Option Str) :=
  match name with
  | none => (-1, environ)
  | some text => if validName name then (0, unsetLoop text environ) else (-1, environ)

/-- The value of the first entry for the name. -/
def getenv (name : Str) (environ : List (Option Str)) : Option Str :=
  ((entries environ).find? (names name)).map fun entry => entry.drop (name.length + 1)

/-- The first entry for the same name is replaced, or else an entry is added at the end. -/
def putenv (es : Str) (environ : List (Option Str)) : List (Option Str) :=
  match (entries environ).findIdx? (names (es.takeWhile (· ≠ equals))) with
  | some idx => environ.set idx (some es)
  | none => (entries environ).map some ++ [some es, none]

/-- `mallocFails` and `putenvFails` tell whether these find no memory. -/
def setenv (mallocFails putenvFails : Bool) (name value : Option Str) (overwrite : Int)
    (environ : List (Option Str)) : Int × List (Option Str) :=
  match name, value with
  | some text, some content =>
      if validName name then
        if (getenv text environ).isSome ∧ overwrite = 0 then (0, environ)
        else
          let environ := (unsetenv name environ).2
          if mallocFails then (-1, environ)
          else
            let es := text ++ [equals] ++ content
            if putenvFails then (-1, environ) else (0, putenv es environ)
      else (-1, environ)
  | _, _ => (-1, environ)

/-! Which entries a name has. -/

theorem names_iff (name entry : Str) :
    names name entry = true ↔ ∃ value, entry = name ++ equals :: value := by
  simp only [names, decide_eq_true_eq]
  constructor
  · rintro ⟨front, mark⟩
    refine ⟨entry.drop (name.length + 1), ?_⟩
    obtain ⟨inside, is⟩ := List.getElem?_eq_some_iff.mp mark
    conv_lhs => rw [← List.take_append_drop name.length entry, front,
      List.drop_eq_getElem_cons inside, is]
  · rintro ⟨value, rfl⟩
    simp

theorem takeWhile_name (name value : Str) (plain : equals ∉ name) :
    (name ++ equals :: value).takeWhile (· ≠ equals) = name := by
  have each : ∀ ch ∈ name, decide (ch ≠ equals) = true := by
    intro ch member
    simp only [decide_eq_true_eq]
    rintro rfl
    exact plain member
  rw [List.takeWhile_append_of_pos each]
  simp

/-- An entry belongs to one name only. -/
theorem names_unique (one other entry : Str) (first : equals ∉ one) (second : equals ∉ other)
    (named : names one entry = true)
    (too : names other entry = true) : one = other := by
  obtain ⟨value, rfl⟩ := (names_iff one entry).mp named
  obtain ⟨content, same⟩ := (names_iff other _).mp too
  rw [← takeWhile_name one value first, same, takeWhile_name other content second]

theorem entries_unset (name : Str) (ep : List (Option Str)) :
    entries (unsetLoop name ep) = (entries ep).filter fun entry => !names name entry := by
  fun_induction unsetLoop name ep with
  | case1 entry rest named ih =>
      rw [ih, entries_shift, entries, List.filter_cons_of_neg (by simp [named])]
  | case2 entry rest other ih =>
      rw [entries, ih, entries, List.filter_cons_of_pos (by simp [other])]
  | case3 ep ended =>
      cases ep with
      | nil => rfl
      | cons cell rest =>
          cases cell with
          | none => rfl
          | some entry => exact absurd rfl (ended entry rest)

theorem shift_ended (entry : Str) (rest : List (Option Str)) :
    none ∈ shift (some entry :: rest) := by
  induction rest generalizing entry with
  | nil => exact List.mem_cons_self
  | cons next rest ih =>
      cases next with
      | none => exact List.mem_cons_self
      | some other => exact List.mem_cons_of_mem _ (ih other)

/-- The array keeps a null pointer at its end. -/
theorem unset_ended (name : Str) (ep : List (Option Str)) (ended : none ∈ ep) :
    none ∈ unsetLoop name ep := by
  fun_induction unsetLoop name ep with
  | case1 entry rest named ih => exact ih (shift_ended entry rest)
  | case2 entry rest other ih =>
      rcases List.mem_cons.mp ended with bad | later
      · cases bad
      · exact List.mem_cons_of_mem _ (ih later)
  | case3 ep _ => exact ended

theorem entries_map (list : List Str) (rest : List (Option Str)) :
    entries (list.map some ++ rest) = list ++ entries rest := by
  induction list with
  | nil => rfl
  | cons entry list ih => exact congrArg (entry :: ·) ih

theorem put_added (name value : Str) (environ : List (Option Str)) (plain : equals ∉ name)
    (absent : ∀ entry ∈ entries environ, names name entry = false) :
    putenv (name ++ [equals] ++ value) environ =
      (entries environ).map some ++ [some (name ++ [equals] ++ value), none] := by
  have whole : name ++ [equals] ++ value = name ++ equals :: value := by simp
  have none : (entries environ).findIdx? (names name) = none := by
    rw [List.findIdx?_eq_none_iff]
    exact absent
  rw [putenv, whole, takeWhile_name name value plain, none]

theorem entries_put (name value : Str) (environ : List (Option Str)) (plain : equals ∉ name)
    (absent : ∀ entry ∈ entries environ, names name entry = false) :
    entries (putenv (name ++ [equals] ++ value) environ) =
      entries environ ++ [name ++ [equals] ++ value] := by
  rw [put_added name value environ plain absent, entries_map]
  rfl

/-- `putenv` of a name that is not defined ends the array anew. -/
theorem put_ended (name value : Str) (environ : List (Option Str)) (plain : equals ∉ name)
    (absent : ∀ entry ∈ entries environ, names name entry = false) :
    none ∈ putenv (name ++ [equals] ++ value) environ := by
  rw [put_added name value environ plain absent]
  simp

theorem unset_undefined (name : Str) (environ : List (Option Str)) :
    ∀ entry ∈ entries (unsetLoop name environ), names name entry = false := by
  intro entry member
  rw [entries_unset] at member
  simpa using (List.mem_filter.mp member).2

theorem valid_cases (name : Option Str) : validName name = true ↔ ∃ text,
    name = some text ∧ text ≠ [] ∧ equals ∉ text := by
  cases name with
  | none => simp [validName]
  | some text => simp [validName]

/-- The entries that a successful `setenv` leaves when it does change them. -/
def replaced (name value : Str) (list : List Str) : List Str :=
  (list.filter fun entry => !names name entry) ++ [name ++ [equals] ++ value]

theorem replaced_own (name value : Str) (list : List Str) :
    (replaced name value list).filter (names name) = [name ++ [equals] ++ value] := by
  have own : names name (name ++ [equals] ++ value) = true :=
    (names_iff _ _).mpr ⟨value, by simp⟩
  rw [replaced, List.filter_append, List.filter_filter, List.filter_cons_of_pos own,
      List.filter_nil]
  simp

theorem find_replaced_own (name value : Str) (list : List Str) :
    ((replaced name value list).find? (names name)).map
      (fun entry => entry.drop (name.length + 1)) = some value := by
  rw [← List.head?_filter, replaced_own]
  simp

theorem find_replaced_other (name value other : Str) (list : List Str) (plain : equals ∉ name)
    (too : equals ∉ other) (different : other ≠ name) :
    (replaced name value list).find? (names other) = list.find? (names other) := by
  have own : names name (name ++ [equals] ++ value) = true :=
    (names_iff _ _).mpr ⟨value, by simp⟩
  have foreign : ∀ entry, names name entry = true → names other entry = false := by
    intro entry named
    by_contra also
    exact different (names_unique other name entry too plain (by simpa using also) named)
  have rest : (list.filter fun entry => !names name entry).filter (names other) =
      list.filter (names other) := by
    rw [List.filter_filter]
    refine List.filter_congr fun entry _ => ?_
    cases named : names name entry with
    | false => simp
    | true => simp [foreign entry named]
  rw [← List.head?_filter, ← List.head?_filter, replaced, List.filter_append, rest,
    List.filter_cons_of_neg (by rw [foreign _ own]; exact Bool.false_ne_true), List.filter_nil,
    List.append_nil]

section Calls
variable (environ : List (Option Str)) (mallocFails putenvFails : Bool) (overwrite : Int)

theorem unsetenv_valid (name : Str) (valid : validName (some name) = true) :
    unsetenv (some name) environ = (0, unsetLoop name environ) := by
  rw [unsetenv, if_pos valid]

theorem setenv_valid (name value : Str) (valid : validName (some name) = true) :
    setenv mallocFails putenvFails (some name) (some value) overwrite environ =
      if (getenv name environ).isSome = true ∧ overwrite = 0 then (0, environ)
      else if mallocFails = true ∨ putenvFails = true then (-1, unsetLoop name environ)
      else (0, putenv (name ++ [equals] ++ value) (unsetLoop name environ)) := by
  simp only [setenv, if_pos valid, unsetenv_valid environ name valid]
  cases mallocFails <;> cases putenvFails <;> simp

theorem invalid_refused (bad content : Option Str) (invalid : validName bad = false) :
    unsetenv bad environ = (-1, environ) ∧
      setenv mallocFails putenvFails bad content overwrite environ = (-1, environ) := by
  cases bad with
  | none => exact ⟨rfl, rfl⟩
  | some text =>
      constructor
      · rw [unsetenv, invalid]
        rfl
      · cases content with
        | none => rfl
        | some content =>
            simp only [setenv, invalid]
            rfl

theorem entries_set (name value : Str) (plain : equals ∉ name) :
    entries (putenv (name ++ [equals] ++ value) (unsetLoop name environ)) =
      replaced name value (entries environ) := by
  rw [entries_put name value _ plain (unset_undefined name environ), entries_unset]
  rfl

/-- A successful `setenv` has left everything as it was, or has replaced the entries for the
name. -/
theorem setenv_cases (name value : Str) (valid : validName (some name) = true)
    (plain : equals ∉ name) (after : List (Option Str))
    (done : setenv mallocFails putenvFails (some name) (some value) overwrite environ =
      (0, after)) :
    if (getenv name environ).isSome = true ∧ overwrite = 0 then after = environ
    else entries after = replaced name value (entries environ) := by
  rw [setenv_valid environ mallocFails putenvFails overwrite name value valid] at done
  split at done
  · next kept =>
      cases done
      rw [if_pos kept]
  · next changed =>
      rw [if_neg changed]
      split at done
      · cases done
      · cases done
        exact entries_set environ name value plain

theorem setenv_ended (name value : Str) (valid : validName (some name) = true)
    (plain : equals ∉ name) (ended : none ∈ environ) (after : List (Option Str))
    (done : setenv mallocFails putenvFails (some name) (some value) overwrite environ =
      (0, after)) :
    none ∈ after := by
  rw [setenv_valid environ mallocFails putenvFails overwrite name value valid] at done
  split at done
  · cases done
    exact ended
  · split at done
    · cases done
    · cases done
      exact put_ended name value _ plain (unset_undefined name environ)

end Calls

theorem environment_is_a_map (environ : List (Option Str)) (ended : none ∈ environ)
    (name value : Str) (valid : validName (some name) = true) (mallocFails putenvFails : Bool)
    (overwrite : Int) :
    ((unsetenv (some name) environ).1 = 0 ∧ none ∈ (unsetenv (some name) environ).2 ∧
      entries (unsetenv (some name) environ).2 = (entries environ).filter fun entry =>
        !names name entry) ∧
    ((mallocFails = false → putenvFails = false →
      (setenv mallocFails putenvFails (some name) (some value) overwrite environ).1 = 0) ∧
      ∀ after, setenv mallocFails putenvFails (some name) (some value) overwrite environ =
        (0, after) →
        none ∈ after ∧
        if (getenv name environ).isSome = true ∧ overwrite = 0 then after = environ
        else
          entries after =
            ((entries environ).filter fun entry => !names name entry) ++
              [name ++ [equals] ++ value] ∧
          (entries after).filter (names name) = [name ++ [equals] ++ value] ∧
          getenv name after = some value ∧
          ∀ other, validName (some other) = true → other ≠ name →
            getenv other after = getenv other environ) ∧
    ∀ (bad content : Option Str), validName bad = false →
      unsetenv bad environ = (-1, environ) ∧
      setenv mallocFails putenvFails bad content overwrite environ = (-1, environ) := by
  obtain ⟨text, same, _, plain⟩ := (valid_cases (some name)).mp valid
  cases same
  rw [unsetenv_valid environ name valid]
  refine ⟨⟨rfl, unset_ended name environ ended, entries_unset name environ⟩, ⟨?_, ?_⟩,
    invalid_refused environ mallocFails putenvFails overwrite⟩
  · rintro rfl rfl
    rw [setenv_valid environ false false overwrite name value valid]
    split
    · rfl
    · rw [if_neg (by decide)]
  · intro after done
    refine ⟨setenv_ended environ mallocFails putenvFails overwrite name value valid plain
      ended after done, ?_⟩
    have left :=
      setenv_cases environ mallocFails putenvFails overwrite name value valid plain after done
    split at left
    · next kept =>
        rw [if_pos kept]
        exact left
    · next changed =>
        rw [if_neg changed]
        refine ⟨left, ?_, ?_, ?_⟩
        · rw [left]
          exact replaced_own name value _
        · rw [getenv, left]
          exact find_replaced_own name value _
        · intro other fine different
          obtain ⟨text, same, _, too⟩ := (valid_cases (some other)).mp fine
          cases same
          rw [getenv, getenv, left, find_replaced_other name value other _ plain too different]

-- "A=1", "B" and "A=2" become "B" and "A=3".
theorem repeated_name_is_replaced :
    ∃ after, setenv false false (some [65]) (some [51]) 1 [some [65, 61, 49], some [66],
      some [65, 61, 50], none] =
      (0, after) ∧
      entries after = [[66], [65, 61, 51]] ∧ getenv [65] after = some [51] := by
  have whole :=
    environment_is_a_map [some [65, 61, 49], some [66], some [65, 61, 50], none] (by simp)
      [65] [51] (by decide) false false 1
  have done : setenv false false (some [65]) (some [51]) 1 [some [65, 61, 49], some [66],
    some [65, 61, 50], none] =
      (0, (setenv false false (some [65]) (some [51]) 1 [some [65, 61, 49], some [66],
        some [65, 61, 50], none]).2) :=
    Prod.ext (whole.2.1.1 rfl rfl) rfl
  have changed := (whole.2.1.2 _ done).2
  rw [if_neg (by decide)] at changed
  exact ⟨_, done, changed.1.trans (by decide), changed.2.2.1⟩

/-! What a `setenv` that fails has done. -/

theorem getenv_defined (name : Str) (environ : List (Option Str)) :
    (getenv name environ).isSome = true ↔ ∃ entry ∈ entries environ,
      names name entry = true := by
  rw [getenv, Option.isSome_map, List.find?_isSome]

theorem unset_absent (name : Str) (ep : List (Option Str))
    (absent : ∀ entry ∈ entries ep, names name entry = false) : unsetLoop name ep = ep := by
  fun_induction unsetLoop name ep with
  | case1 entry rest named ih =>
      have other := absent entry List.mem_cons_self
      rw [named] at other
      cases other
  | case2 entry rest other ih =>
      rw [ih fun entry member => absent entry (List.mem_cons_of_mem _ member)]
  | case3 ep _ => rfl

/-- The loop changes the array exactly when the name is defined. -/
theorem unset_unchanged (name : Str) (environ : List (Option Str)) :
    unsetLoop name environ = environ ↔ getenv name environ = none := by
  rw [← Option.not_isSome_iff_eq_none, getenv_defined]
  constructor
  · rintro same ⟨entry, member, named⟩
    rw [← same, entries_unset] at member
    have other := (List.mem_filter.mp member).2
    rw [named] at other
    cases other
  · intro undefined
    refine unset_absent name environ fun entry member => ?_
    by_contra named
    exact undefined ⟨entry, member, by simpa using named⟩

/-- A failure is seen only when the old definitions have been removed already. -/
theorem failed_setenv_unchanged_iff (mallocFails putenvFails : Bool) (name value : Option Str)
    (overwrite : Int) (environ : List (Option Str)) :
    ((setenv mallocFails putenvFails name value overwrite environ).1 = -1 →
      (setenv mallocFails putenvFails name value overwrite environ).2 = environ) ↔
    (mallocFails = false ∧ putenvFails = false) ∨ overwrite = 0 ∨
      name.bind (getenv · environ) = none ∨
      validName name = false ∨ value = none := by
  cases valid : validName name with
  | false =>
      rw [(invalid_refused environ mallocFails putenvFails overwrite name value valid).2]
      simp
  | true =>
      obtain ⟨text, rfl, _⟩ := (valid_cases name).mp valid
      cases value with
      | none => simp [setenv]
      | some content =>
          rw [setenv_valid environ mallocFails putenvFails overwrite text content valid]
          simp only [Option.bind_some, Bool.true_eq_false, reduceCtorEq, or_false]
          split
          · next kept => simp [kept.2]
          · next changed =>
              split
              · next failed =>
                  simp only [true_implies, unset_unchanged]
                  constructor
                  · intro undefined
                    exact Or.inr (Or.inr undefined)
                  · rintro (⟨first, second⟩ | zero | undefined)
                    · rw [first, second] at failed
                      simp at failed
                    · by_contra defined
                      exact changed ⟨Option.isSome_iff_ne_none.mpr defined, zero⟩
                    · exact undefined
              · next fine =>
                  rw [not_or, Bool.not_eq_true, Bool.not_eq_true] at fine
                  simp [fine]

-- "A=1" is to become "A=2", but there is no memory: "A" is no longer defined.
theorem failed_setenv_removes :
    ¬ ∀ (mallocFails putenvFails : Bool) (name value : Option Str) (overwrite : Int)
      (environ : List (Option Str)),
      (setenv mallocFails putenvFails name value overwrite environ).1 = -1 →
        (setenv mallocFails putenvFails name value overwrite environ).2 = environ := by
  intro claimed
  have same := claimed true false (some [65]) (some [50]) 1 [some [65, 61, 49], none] rfl
  have left : entries (setenv true false (some [65]) (some [50]) 1 [some [65, 61, 49], none]).2 =
      [] := by
    rw [setenv_valid _ _ _ _ _ _ (by decide), if_neg (by decide), if_pos (by decide), entries_unset]
    decide
  rw [same] at left
  cases left

end Tlpi.Environment

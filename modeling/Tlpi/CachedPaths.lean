import Mathlib.Data.List.Basic
import Tlpi.CStrings
import Tlpi.PathName
import Tlpi.TreeMonitor
import Tlpi.WatchCache

/-!
inotify/inotify_dtree.c: what `zapSubtree` and `rewriteCachedPaths` do to every slot of the
cache. Here `zapSubtree` has the number that it returns and a pointer for its argument, which
may point into the cache.
-/

namespace Tlpi.CachedPaths

open CStrings (literal)
open PathName WatchCache
open TreeMonitor (Kernel World)

/-- A string of the caller, or one that starts somewhere in the pathname of a slot. -/
inductive Pointer where
  | caller (text : Path)
  | cached (slot offset : Nat)
  deriving DecidableEq

/-- The string that the pointer stands for while the cache is as it is. -/
def stringAt (cache : Cache) : Pointer → Path
  | .caller text => text
  | .cached slot offset => (cache.getD slot unusedSlot).path.drop offset

section Zap
variable {State : Type} (kernel : Kernel State)

def zapLoop (pn : Path) : List Nat → Int → World State → Int × World State
  | [], cnt, world => (cnt, world)
  | j :: rest, cnt, world =>
      let slot := world.cache.getD j unusedSlot
      if 0 ≤ slot.wd ∧ covers slash pn slot.path then
        let answer := kernel.rmWatch world.state slot.wd
        let world := { world with state := answer.2, calls := world.calls ++ [.remove slot.wd] }
        if answer.1 then zapLoop pn rest (cnt + 1)
          { world with cache := markCacheSlotEmpty world.cache j }
        else (-1, world)
      else zapLoop pn rest cnt world

/-- The string is copied before the first slot is emptied. -/
def zapSubtree (world : World State) (path : Pointer) : Int × World State :=
  let pn := stringAt world.cache path
  zapLoop kernel pn (List.range world.cache.length) 0 world

theorem zap_loop_refines (pn : Path) (slots : List Nat) (cnt : Int) (world : World State)
    (counts : 0 ≤ cnt) :
    TreeMonitor.zapSlots kernel pn slots world =
      (decide (0 ≤ (zapLoop kernel pn slots cnt world).1),
        (zapLoop kernel pn slots cnt world).2) := by
  induction slots generalizing cnt world with
  | nil => simp [TreeMonitor.zapSlots, zapLoop, counts]
  | cons j rest ih =>
      rw [TreeMonitor.zapSlots, TreeMonitor.zapSlot, zapLoop]
      dsimp only
      by_cases fits : 0 ≤ (world.cache.getD j unusedSlot).wd ∧
          covers slash pn (world.cache.getD j unusedSlot).path = true
      · rw [if_pos fits, if_pos fits]
        by_cases answer : (kernel.rmWatch world.state (world.cache.getD j unusedSlot).wd).1 = true
        · rw [if_pos answer, if_pos answer]
          exact ih (cnt + 1) _ (by omega)
        · rw [if_neg answer, if_neg answer]
          rfl
      · rw [if_neg fits, if_neg fits]
        exact ih cnt world counts

/-- The monitor's own `zapSubtree` asks only whether the number is -1. -/
theorem zap_refines (world : World State) (path : Pointer) :
    TreeMonitor.zapSubtree kernel world (stringAt world.cache path) =
      (decide (0 ≤ (zapSubtree kernel world path).1), (zapSubtree kernel world path).2) :=
  zap_loop_refines kernel _ _ 0 world (Int.le_refl 0)

def zapped (path : Path) (slot : Slot) : Bool :=
  decide (0 ≤ slot.wd ∧ Below slash path slot.path)

/-- The calls of `inotify_rm_watch` for these descriptors, one after the other, all succeed. -/
def removes : State → List Int → Bool
  | _, [] => true
  | state, wd :: rest => (kernel.rmWatch state wd).1 && removes (kernel.rmWatch state wd).2 rest

theorem zapped_iff (path : Path) (slot : Slot) :
    zapped path slot = true ↔ 0 ≤ slot.wd ∧ covers slash path slot.path = true := by
  rw [zapped, decide_eq_true_eq, covers_iff]

theorem zap_turn (pn : Path) (j : Nat) (rest : List Nat) (cnt : Int)
    (world : World State) (slot : Slot) (here : world.cache.getD j unusedSlot = slot)
    (hit : zapped pn slot = true) (works : (kernel.rmWatch world.state slot.wd).1 = true) :
    zapLoop kernel pn (j :: rest) cnt world =
      zapLoop kernel pn rest (cnt + 1) ⟨markCacheSlotEmpty world.cache j, world.roots,
        (kernel.rmWatch world.state slot.wd).2, world.calls ++ [.remove slot.wd]⟩ := by
  rw [zapLoop, here]
  dsimp only
  rw [if_pos ((zapped_iff pn slot).mp hit), if_pos works]

theorem zap_passes (pn : Path) (j : Nat) (rest : List Nat) (cnt : Int)
    (world : World State) (slot : Slot) (here : world.cache.getD j unusedSlot = slot)
    (other : ¬ zapped pn slot = true) :
    zapLoop kernel pn (j :: rest) cnt world = zapLoop kernel pn rest cnt world := by
  rw [zapLoop, here]
  exact if_neg fun fits => other ((zapped_iff pn slot).mpr fits)

/-- What `zapSubtree` makes of a slot. -/
def emptied (path : Path) (slot : Slot) : Slot := if zapped path slot then unusedSlot else slot

-- by induction on the slots that are still to be looked at, in the order of the loop
theorem zap_loop (pn : Path) (front back : Cache) (cnt : Int) (world : World State)
    (whole : world.cache = front ++ back)
    (works : removes kernel world.state ((back.filter (zapped pn)).map Slot.wd) = true) :
    (zapLoop kernel pn (List.range' front.length back.length) cnt world).1 =
      cnt + back.countP (zapped pn) ∧
      (zapLoop kernel pn (List.range' front.length back.length) cnt world).2.cache =
        front ++ back.map (emptied pn) := by
  induction back generalizing front cnt world with
  | nil => simp [zapLoop, whole]
  | cons slot back ih =>
      have here : world.cache.getD front.length unusedSlot = slot := by
        rw [whole]
        simp
      rw [List.length_cons, List.range'_succ, List.map_cons, emptied]
      by_cases hit : zapped pn slot = true
      · rw [List.filter_cons_of_pos hit, List.map_cons, removes, Bool.and_eq_true] at works
        have cleared : markCacheSlotEmpty world.cache front.length =
            front ++ [unusedSlot] ++ back := by
          rw [markCacheSlotEmpty, whole, List.set_append_right _ _ (Nat.le_refl _), Nat.sub_self]
          simp
        obtain ⟨count, rest⟩ :=
          ih (front ++ [unusedSlot]) (cnt + 1) ⟨markCacheSlotEmpty world.cache front.length,
            world.roots, (kernel.rmWatch world.state slot.wd).2,
            world.calls ++ [.remove slot.wd]⟩ cleared works.2
        rw [List.length_append, List.length_singleton] at count rest
        rw [zap_turn kernel pn front.length _ cnt world slot here hit works.1,
          List.countP_cons_of_pos hit, if_pos hit]
        refine ⟨?_, ?_⟩
        · rw [count]
          push_cast
          omega
        · rw [rest, List.append_assoc, List.singleton_append]
      · rw [List.filter_cons_of_neg hit] at works
        obtain ⟨count, rest⟩ := ih (front ++ [slot]) cnt world
          (by rw [whole, List.append_assoc, List.singleton_append]) works
        rw [List.length_append, List.length_singleton] at count rest
        rw [zap_passes kernel pn front.length _ cnt world slot here hit,
            List.countP_cons_of_neg hit, if_neg hit]
        refine ⟨count, ?_⟩
        rw [rest, List.append_assoc, List.singleton_append]

theorem zap_exact (world : World State) (path : Pointer)
    (works : removes kernel world.state
      ((world.cache.filter (zapped (stringAt world.cache path))).map Slot.wd) = true) :
    (zapSubtree kernel world path).1 = world.cache.countP (zapped (stringAt world.cache path)) ∧
      (zapSubtree kernel world path).2.cache =
        world.cache.map (emptied (stringAt world.cache path)) := by
  have whole := zap_loop kernel (stringAt world.cache path) [] world.cache 0 world rfl works
  rw [Int.zero_add, List.nil_append] at whole
  rw [zapSubtree, List.range_eq_range']
  exact whole

end Zap

/-! Renames. -/

/-- Where a rename puts a path. -/
def place (old new path : Path) : Path := if Below slash old path then reroot old new path else path

def moved (old new : Path) (slot : Slot) : Slot := { slot with path := place old new slot.path }

theorem place_outside (old new path : Path) (outside : ¬ Below slash old path) :
    place old new path = path :=
  if_neg outside

theorem place_inside (old new path : Path) (inside : Below slash old path) :
    place old new path = reroot old new path := if_pos inside

theorem place_back (old new path : Path) (free : ¬ Below slash new path) :
    place new old (place old new path) = path := by
  by_cases inside : Below slash old path
  · rw [place_inside old new path inside,
      place_inside new old _ (reroot_below slash old new path inside),
      reroot_back slash old new path inside]
  · rw [place_outside old new path inside, place_outside new old path free]

theorem place_distinct (old new first second : Path) (one : ¬ Below slash new first)
    (other : ¬ Below slash new second) (different : first ≠ second) :
    place old new first ≠ place old new second := by
  intro same
  apply different
  rw [← place_back old new first one, same, place_back old new second other]

theorem moved_back (old new : Path) (slot : Slot) (free : ¬ Below slash new slot.path) :
    moved new old (moved old new slot) = slot := by
  unfold moved
  dsimp only
  rw [place_back old new slot.path free]

/-- Exactly the slots at or below the old path get the new one in front of the rest of theirs. -/
structure Renames (old new : Path) (before after : Cache) : Prop where
  size : after.length = before.length
  itself : ∀ (j : Nat) wd, before[j]? = some ⟨wd, old⟩ → after[j]? = some ⟨wd, new⟩
  below : ∀ (j : Nat) wd rest, before[j]? = some ⟨wd, join slash old rest⟩ →
    after[j]? = some ⟨wd, join slash new rest⟩
  others : ∀ (j : Nat) (slot : Slot), before[j]? = some slot → ¬ Below slash old slot.path →
    after[j]? = some slot
  unused : ∀ (j : Nat), before[j]? = some unusedSlot → after[j]? = some unusedSlot

theorem moved_renames (old new : Path) (cache : Cache) (solid : old ≠ []) :
    Renames old new cache (cache.map (moved old new)) := by
  have at_slot : ∀ (j : Nat) (slot : Slot), cache[j]? = some slot →
      (cache.map (moved old new))[j]? = some (moved old new slot) := by
    intro j slot there
    rw [List.getElem?_map, there]
    rfl
  have others : ∀ (j : Nat) (slot : Slot), cache[j]? = some slot →
    ¬ Below slash old slot.path →
      (cache.map (moved old new))[j]? = some slot := by
    intro j slot there outside
    rw [at_slot j slot there, moved, place_outside old new slot.path outside]
  refine ⟨List.length_map _, ?_, ?_, others, ?_⟩
  · intro j wd there
    rw [at_slot j _ there, moved, place_inside old new old (below_refl slash old),
      reroot, List.drop_length, List.append_nil]
  · intro j wd rest there
    rw [at_slot j _ there, moved, place_inside old new _ (below_join slash old rest),
      reroot_join slash old new old rest (below_refl slash old), reroot, List.drop_length,
      List.append_nil]
  · intro j there
    refine others j unusedSlot there fun bad => solid ?_
    exact List.eq_nil_of_length_eq_zero (Nat.le_zero.mp (below_length slash old [] bad))

section Rename
variable (cache : Cache) (oldPathPrefix oldName newPathPrefix newName : Path)

/-- Nothing is cut off while the paths are shorter than PATH_MAX. -/
theorem rewrite_moved (oldShort : (join slash oldPathPrefix oldName).length < PATH_MAX)
    (newShort : (join slash newPathPrefix newName).length < PATH_MAX)
    (short : ∀ slot ∈ cache, Below slash (join slash oldPathPrefix oldName) slot.path →
      (reroot (join slash oldPathPrefix oldName) (join slash newPathPrefix newName)
        slot.path).length < PATH_MAX) :
    rewriteCachedPaths cache oldPathPrefix oldName newPathPrefix newName =
      cache.map (moved (join slash oldPathPrefix oldName) (join slash newPathPrefix newName)) := by
  have whole : ∀ text : Path, text.length < PATH_MAX → clip text = text := fun text fits =>
    List.take_of_length_le (Nat.le_sub_one_of_lt fits)
  rw [rewriteCachedPaths, fullPath, fullPath, whole _ oldShort, whole _ newShort]
  apply List.map_congr_left
  intro slot member
  by_cases inside : Below slash (join slash oldPathPrefix oldName) slot.path
  · rw [if_pos ((covers_iff slash _ _).mpr inside), moved, place_inside _ _ _ inside,
      whole _ (short slot member inside)]
  · rw [if_neg fun hit => inside ((covers_iff slash _ _).mp hit), moved,
        place_outside _ _ _ inside]

theorem rewrite_back (oldShort : (join slash oldPathPrefix oldName).length < PATH_MAX)
    (newShort : (join slash newPathPrefix newName).length < PATH_MAX)
    (free : ∀ slot ∈ cache, ¬ Below slash (join slash newPathPrefix newName) slot.path)
    (fits : ∀ slot ∈ cache, slot.path.length < PATH_MAX) :
    rewriteCachedPaths (cache.map (moved (join slash oldPathPrefix oldName)
      (join slash newPathPrefix newName))) newPathPrefix newName oldPathPrefix oldName = cache := by
  rw [rewrite_moved _ newPathPrefix newName oldPathPrefix oldName newShort oldShort, List.map_map]
  · conv_rhs => rw [← List.map_id cache]
    apply List.map_congr_left
    intro slot member
    exact moved_back _ _ slot (free slot member)
  · intro slot member below
    obtain ⟨before, inside, rfl⟩ := List.mem_map.mp member
    rw [← place_inside _ _ _ below, moved, place_back _ _ _ (free before inside)]
    exact fits before inside

end Rename

theorem path_operations_are_exact :
    (∀ (State : Type) (kernel : Kernel State) (world : World State) (path : Pointer),
      let pn := stringAt world.cache path
      removes kernel world.state ((world.cache.filter (zapped pn)).map Slot.wd) = true →
        (zapSubtree kernel world path).1 = world.cache.countP (zapped pn) ∧
          (zapSubtree kernel world path).2.cache = world.cache.map (emptied pn)) ∧
    ∀ (cache : Cache) (oldPathPrefix oldName newPathPrefix newName : Path),
      let old := join slash oldPathPrefix oldName
      let new := join slash newPathPrefix newName
      let renamed := rewriteCachedPaths cache oldPathPrefix oldName newPathPrefix newName
      old.length < PATH_MAX → new.length < PATH_MAX →
      (∀ slot ∈ cache, Below slash old slot.path →
        (reroot old new slot.path).length < PATH_MAX) →
        Renames old new cache renamed ∧
          ((∀ slot ∈ cache, ¬ Below slash new slot.path) →
            (∀ (i j : Nat) (first second : Slot), cache[i]? = some first →
              cache[j]? = some second →
                first.path ≠ second.path →
                renamed[i]?.map Slot.path ≠ renamed[j]?.map Slot.path) ∧
            ((∀ slot ∈ cache, slot.path.length < PATH_MAX) →
              rewriteCachedPaths renamed newPathPrefix newName oldPathPrefix oldName = cache)) := by
  refine ⟨fun State kernel world path works => zap_exact kernel world path works, ?_⟩
  intro cache oldPathPrefix oldName newPathPrefix newName old new renamed oldShort newShort short
  have whole : renamed = cache.map (moved old new) :=
    rewrite_moved cache oldPathPrefix oldName newPathPrefix newName oldShort newShort short
  rw [whole]
  refine ⟨moved_renames old new cache (by simp [old, join]),
    fun free => ⟨?_, fun fits => ?_⟩⟩
  · intro i j first second one other different
    rw [List.getElem?_map, List.getElem?_map, one, other]
    intro same
    exact place_distinct old new first.path second.path (free first (List.mem_of_getElem? one))
      (free second (List.mem_of_getElem? other)) different (Option.some.inj same)
  · exact rewrite_back cache oldPathPrefix oldName newPathPrefix newName oldShort
      newShort free fits

theorem cached_argument_is_emptied :
    let tree : Cache :=
      [⟨1, literal "a/b"⟩, ⟨2, literal "a/bc"⟩, ⟨3, literal "a/b/c"⟩, unusedSlot]
    let kernel : Kernel Unit :=
      ⟨fun _ _ _ => (.error, ()), fun _ _ => (true, ()), fun _ _ => [], fun _ => ()⟩
    ((zapSubtree kernel ⟨tree, [], (), []⟩ (.cached 0 0)).1 = 2 ∧
      (zapSubtree kernel ⟨tree, [], (), []⟩ (.cached 0 0)).2.cache =
        [unusedSlot, ⟨2, literal "a/bc"⟩, unusedSlot, unusedSlot]) ∧
      rewriteCachedPaths (rewriteCachedPaths tree (literal "a") (literal "b")
        (literal "x") (literal "y"))
        (literal "x") (literal "y") (literal "a") (literal "b") = tree := by
  intro tree kernel
  have zap :=
    path_operations_are_exact.1 Unit kernel ⟨tree, [], (), []⟩ (.cached 0 0) (by decide)
  have rename := path_operations_are_exact.2 tree (literal "a") (literal "b") (literal "x")
    (literal "y") (by decide) (by decide) (by decide)
  exact ⟨⟨zap.1.trans (by decide), zap.2.trans (by decide)⟩,
    (rename.2 (by decide)).2 (by decide)⟩

end Tlpi.CachedPaths

import Mathlib.Data.List.Basic
import Mathlib.Data.List.Nodup
import Mathlib.Data.List.Perm.Basic
import Tlpi.PathName

/-!
inotify/inotify_dtree.c: the array `wlCache` of watch descriptors and pathnames
and the list of root pathnames. A slot number of -1 is `none`. Pathnames are
byte strings without the terminating null; `snprintf` into a buffer of PATH_MAX
bytes keeps the first PATH_MAX - 1 of them.
-/

namespace Tlpi.WatchCache

open PathName

abbrev Path := List UInt8

def slash : UInt8 := 47

def PATH_MAX : Nat := 4096

def clip (text : Path) : Path := text.take (PATH_MAX - 1)

/-- `snprintf(fullPath, sizeof(fullPath), "%s/%s", dir, name)`. -/
def fullPath (dir name : Path) : Path := clip (join slash dir name)

structure Slot where
  wd : Int
  path : Path
  deriving DecidableEq

abbrev Cache := List Slot

def unusedSlot : Slot := ⟨-1, []⟩

def findWatch (cache : Cache) (wd : Int) : Option Nat := cache.findIdx? fun slot => slot.wd == wd

/-- Without -a, which aborts the program when the descriptor is missing. -/
def findWatchChecked (cache : Cache) (wd : Int) : Option Nat := findWatch cache wd

def markCacheSlotEmpty (cache : Cache) (slot : Nat) : Cache := cache.set slot unusedSlot

def ALLOC_INCR : Nat := 200

def findEmptyCacheSlot (cache : Cache) : Nat × Cache :=
  match cache.findIdx? fun slot => slot.wd == -1 with
  | some slot => (slot, cache)
  | none => (cache.length, cache ++ List.replicate ALLOC_INCR unusedSlot)

def addWatchToCache (cache : Cache) (wd : Int) (pathname : Path) : Cache :=
  let found := findEmptyCacheSlot cache
  found.2.set found.1 ⟨wd, pathname.take PATH_MAX⟩

def pathnameToCacheSlot (cache : Cache) (pathname : Path) : Option Nat :=
  cache.findIdx? fun slot => decide (0 ≤ slot.wd) && slot.path == pathname

def pathnameInCache (cache : Cache) (pathname : Path) : Bool :=
  (pathnameToCacheSlot cache pathname).isSome

def rewriteCachedPaths (cache : Cache) (oldPathPrefix oldName newPathPrefix newName : Path) :
    Cache :=
  let old := fullPath oldPathPrefix oldName
  let new := fullPath newPathPrefix newName
  cache.map fun slot =>
    if covers slash old slot.path then { slot with path := clip (reroot old new slot.path) }
    else slot

/-! `rootDirPaths`; a root that is no longer monitored is `none`. -/

abbrev RootDirPaths := List (Option Path)

def findRootDirPath (roots : RootDirPaths) (path : Path) : Option Nat :=
  roots.findIdx? fun root => root == some path

def isRootDirPath (roots : RootDirPaths) (path : Path) : Bool := (findRootDirPath roots path).isSome

/-- No result when the program exits, because the path is not listed or no root is left. -/
def zapRootDirPath (roots : RootDirPaths) (path : Path) : Option RootDirPaths :=
  match findRootDirPath roots path with
  | none => none
  | some index =>
      let left := roots.set index none
      if left.all Option.isNone then none else some left

theorem is_root_iff (roots : RootDirPaths) (path : Path) :
    isRootDirPath roots path = true ↔ some path ∈ roots := by
  simp [isRootDirPath, findRootDirPath, List.findIdx?_isSome]

/-! The used slots. -/

def used (slot : Slot) : Option (Int × Path) :=
  if 0 ≤ slot.wd then some (slot.wd, slot.path) else none

def entries (cache : Cache) : List (Int × Path) := cache.filterMap used

structure WellFormed (cache : Cache) : Prop where
  unused : ∀ slot ∈ cache, slot.wd < 0 → slot = unusedSlot
  distinct : ((entries cache).map Prod.fst).Nodup

theorem mem_entries (cache : Cache) (wd : Int) (path : Path) :
    (wd, path) ∈ entries cache ↔ 0 ≤ wd ∧ ⟨wd, path⟩ ∈ cache := by
  unfold entries used
  rw [List.mem_filterMap]
  constructor
  · rintro ⟨slot, member, same⟩
    split at same
    · next valid =>
        cases same
        exact ⟨valid, member⟩
    · cases same
  · rintro ⟨valid, member⟩
    exact ⟨_, member, if_pos valid⟩

theorem empty_well_formed : WellFormed [] := ⟨by simp, by simp [entries]⟩

theorem find_watch_some (cache : Cache) (wd : Int) (index : Nat)
    (found : findWatch cache wd = some index) : ∃ path, cache[index]? = some ⟨wd, path⟩ := by
  obtain ⟨inside, hit, _⟩ := List.findIdx?_eq_some_iff_getElem.mp found
  refine ⟨cache[index].path, ?_⟩
  rw [List.getElem?_eq_getElem inside, ← beq_iff_eq.mp hit]

theorem find_watch_none (cache : Cache) (wd : Int) (valid : 0 ≤ wd) :
    findWatch cache wd = none ↔ wd ∉ (entries cache).map Prod.fst := by
  unfold findWatch
  rw [List.findIdx?_eq_none_iff, List.mem_map]
  constructor
  · rintro missing ⟨⟨wd, path⟩, member, rfl⟩
    have miss := missing ⟨wd, path⟩ ((mem_entries cache wd path).mp member).2
    simp at miss
  · intro missing slot member
    rw [beq_eq_false_iff_ne]
    rintro rfl
    exact missing ⟨(slot.wd, slot.path), (mem_entries cache _ _).mpr ⟨valid, member⟩, rfl⟩

theorem find_watch_entry (cache : Cache) (wd : Int) (valid : 0 ≤ wd) (index : Nat)
    (found : findWatch cache wd = some index) :
    ∃ path, cache[index]? = some ⟨wd, path⟩ ∧ (wd, path) ∈ entries cache := by
  obtain ⟨path, there⟩ := find_watch_some cache wd index found
  exact ⟨path, there, (mem_entries cache wd path).mpr ⟨valid, List.mem_of_getElem? there⟩⟩

theorem find_watch_of_entry (cache : Cache) (wd : Int) (path : Path)
    (member : (wd, path) ∈ entries cache) : ∃ index, findWatch cache wd = some index := by
  have valid := ((mem_entries cache wd path).mp member).1
  cases found : findWatch cache wd with
  | some index => exact ⟨index, rfl⟩
  | none =>
      exact absurd (List.mem_map.mpr ⟨_, member, rfl⟩)
        ((find_watch_none cache wd valid).mp found)

theorem entry_unique (cache : Cache) (wellFormed : WellFormed cache) (wd : Int)
    (first second : Path) (one : (wd, first) ∈ entries cache)
    (other : (wd, second) ∈ entries cache) : first = second := by
  have same := List.inj_on_of_nodup_map wellFormed.distinct one other rfl
  exact (Prod.mk.inj same).2

theorem pathname_in_cache (cache : Cache) (pathname : Path) :
    pathnameInCache cache pathname = true ↔ ∃ wd, (wd, pathname) ∈ entries cache := by
  unfold pathnameInCache pathnameToCacheSlot
  rw [List.findIdx?_isSome, List.any_eq_true]
  constructor
  · rintro ⟨slot, member, hit⟩
    rw [Bool.and_eq_true, decide_eq_true_eq, beq_iff_eq] at hit
    exact ⟨slot.wd, (mem_entries cache _ _).mpr ⟨hit.1, hit.2 ▸ member⟩⟩
  · rintro ⟨wd, member⟩
    obtain ⟨valid, inside⟩ := (mem_entries cache wd pathname).mp member
    exact ⟨_, inside, by simp [valid]⟩

/-! What the operations do to the used slots. -/

theorem entries_set_unused (cache : Cache) (index : Nat) (wd : Int) (path : Path) (valid : 0 ≤ wd)
    (inside : index < cache.length)
    (free : ∀ slot, cache[index]? = some slot → used slot = none) :
    (entries (cache.set index ⟨wd, path⟩)).Perm ((wd, path) :: entries cache) := by
  induction cache generalizing index with
  | nil => simp at inside
  | cons head rest ih =>
      cases index with
      | zero =>
          have empty : used head = none := free head rfl
          have new : used ⟨wd, path⟩ = some (wd, path) := if_pos valid
          simp [entries, empty, new]
      | succ before =>
          have tail := ih before (Nat.lt_of_succ_lt_succ inside) fun slot there => free slot there
          unfold entries at tail ⊢
          rw [List.set_cons_succ, List.filterMap_cons, List.filterMap_cons]
          cases used head with
          | none => exact tail
          | some entry => exact (tail.cons entry).trans (List.Perm.swap _ _ _)

theorem entries_grown (cache : Cache) (count : Nat) :
    entries (cache ++ List.replicate count unusedSlot) = entries cache := by
  have none_used : (List.replicate count unusedSlot).filterMap used = [] := by
    rw [List.filterMap_eq_nil_iff]
    intro slot member
    rw [List.eq_of_mem_replicate member]
    rfl
  rw [entries, List.filterMap_append, none_used, List.append_nil, entries]

theorem entries_add (cache : Cache) (wd : Int) (path : Path) (valid : 0 ≤ wd)
    (short : path.length ≤ PATH_MAX) :
    (entries (addWatchToCache cache wd path)).Perm ((wd, path) :: entries cache) := by
  unfold addWatchToCache findEmptyCacheSlot
  rw [List.take_of_length_le short]
  cases found : cache.findIdx? fun slot => slot.wd == -1 with
  | some index =>
      obtain ⟨inside, hit, _⟩ := List.findIdx?_eq_some_iff_getElem.mp found
      apply entries_set_unused cache index wd path valid inside
      intro slot there
      rw [List.getElem?_eq_getElem inside, Option.some.injEq] at there
      subst there
      simp [used, beq_iff_eq.mp hit]
  | none =>
      have longer : cache.length < (cache ++ List.replicate ALLOC_INCR unusedSlot).length := by
        rw [List.length_append, List.length_replicate]
        exact Nat.lt_add_of_pos_right (by decide)
      have first : ∀ slot, (cache ++ List.replicate ALLOC_INCR unusedSlot)[cache.length]? =
        some slot →
          used slot = none := by
        intro slot there
        rw [List.getElem?_append_right (Nat.le_refl _)] at there
        rw [List.eq_of_mem_replicate (List.mem_of_getElem? there)]
        rfl
      have grown := entries_set_unused _ cache.length wd path valid longer first
      rw [entries_grown] at grown
      exact grown

theorem add_unused (cache : Cache) (wd : Int) (path : Path) (valid : 0 ≤ wd)
    (unused : ∀ slot ∈ cache, slot.wd < 0 → slot = unusedSlot) :
    ∀ slot ∈ addWatchToCache cache wd path, slot.wd < 0 → slot = unusedSlot := by
  intro slot member negative
  have grown : ∀ slot ∈ (findEmptyCacheSlot cache).2, slot.wd < 0 → slot = unusedSlot := by
    unfold findEmptyCacheSlot
    split
    · exact unused
    · intro slot member negative
      rcases List.mem_append.mp member with old | new
      · exact unused slot old negative
      · exact List.eq_of_mem_replicate new
  rcases List.mem_or_eq_of_mem_set member with old | rfl
  · exact grown slot old negative
  · exact absurd valid (Int.not_le.mpr negative)

theorem mem_entries_add (cache : Cache) (wd : Int) (path : Path) (valid : 0 ≤ wd)
    (short : path.length ≤ PATH_MAX) (entry : Int × Path) :
    entry ∈ entries (addWatchToCache cache wd path) ↔ entry = (wd, path) ∨
      entry ∈ entries cache := by
  rw [(entries_add cache wd path valid short).mem_iff, List.mem_cons]

theorem add_well_formed (cache : Cache) (wd : Int) (path : Path) (valid : 0 ≤ wd)
    (short : path.length ≤ PATH_MAX) (wellFormed : WellFormed cache)
    (fresh : wd ∉ (entries cache).map Prod.fst) : WellFormed (addWatchToCache cache wd path) := by
  refine ⟨add_unused cache wd path valid wellFormed.unused, ?_⟩
  rw [((entries_add cache wd path valid short).map Prod.fst).nodup_iff, List.map_cons,
      List.nodup_cons]
  exact ⟨fresh, wellFormed.distinct⟩

/-- The slot taken holds the path as `strncpy` cuts it. -/
theorem mem_entries_added (cache : Cache) (wd : Int) (path : Path) (entry : Int × Path)
    (member : entry ∈ entries (addWatchToCache cache wd path)) :
    entry ∈ entries cache ∨ entry.2 = path.take PATH_MAX := by
  obtain ⟨valid, inside⟩ := (mem_entries _ entry.1 entry.2).mp member
  rcases List.mem_or_eq_of_mem_set inside with old | new
  · have grown : entries (findEmptyCacheSlot cache).2 = entries cache := by
      unfold findEmptyCacheSlot
      split
      · rfl
      · exact entries_grown cache ALLOC_INCR
    exact .inl (grown ▸ (mem_entries _ entry.1 entry.2).mpr ⟨valid, old⟩)
  · exact .inr (congrArg Slot.path new)

theorem mem_entries_cleared (cache : Cache) (index : Nat) (entry : Int × Path)
    (member : entry ∈ entries (markCacheSlotEmpty cache index)) : entry ∈ entries cache := by
  obtain ⟨valid, inside⟩ := (mem_entries _ entry.1 entry.2).mp member
  rcases List.mem_or_eq_of_mem_set inside with old | new
  · exact (mem_entries _ entry.1 entry.2).mpr ⟨valid, old⟩
  · have negative : entry.1 = -1 := congrArg Slot.wd new
    omega

/-- Emptying a slot leaves the entries before and after it. -/
theorem entries_clear (cache : Cache) (index : Nat) (slot : Slot)
    (there : cache[index]? = some slot) :
    ∃ before after, entries cache = before ++ (used slot).toList ++ after ∧
      entries (markCacheSlotEmpty cache index) = before ++ after := by
  obtain ⟨inside, here⟩ := List.getElem?_eq_some_iff.mp there
  refine ⟨entries (cache.take index), entries (cache.drop (index + 1)), ?_, ?_⟩
  · conv_lhs => rw [← List.take_append_drop index cache, List.drop_eq_getElem_cons inside, here]
    unfold entries
    rw [List.filterMap_append, List.filterMap_cons]
    cases used slot <;> simp
  · unfold markCacheSlotEmpty entries
    rw [List.set_eq_take_append_cons_drop, if_pos inside, List.filterMap_append,
        List.filterMap_cons]
    rfl

theorem mem_entries_clear (cache : Cache) (wellFormed : WellFormed cache) (index : Nat) (wd : Int)
    (path : Path) (valid : 0 ≤ wd) (there : cache[index]? = some ⟨wd, path⟩)
    (entry : Int × Path) :
    entry ∈ entries (markCacheSlotEmpty cache index) ↔
      entry ∈ entries cache ∧ entry.1 ≠ wd := by
  obtain ⟨before, after, whole, left⟩ := entries_clear cache index _ there
  have distinct := wellFormed.distinct
  have one : (used ⟨wd, path⟩).toList = [(wd, path)] := by simp [used, valid]
  rw [one] at whole
  rw [whole, List.append_assoc, List.singleton_append, List.map_append, List.map_cons] at distinct
  have moved := (List.nodup_middle.mp distinct)
  rw [List.nodup_cons] at moved
  rw [whole, left]
  constructor
  · intro member
    refine ⟨?_, ?_⟩
    · rcases List.mem_append.mp member with early | late
      · simp [early]
      · simp [late]
    · rintro rfl
      apply moved.1
      rw [← List.map_append]
      exact List.mem_map.mpr ⟨entry, member, rfl⟩
  · rintro ⟨member, other⟩
    simp only [List.append_assoc, List.singleton_append, List.mem_append,
      List.mem_cons] at member ⊢
    rcases member with early | rfl | late
    · exact Or.inl early
    · exact absurd rfl other
    · exact Or.inr late

theorem clear_well_formed (cache : Cache) (index : Nat) (wellFormed : WellFormed cache) :
    WellFormed (markCacheSlotEmpty cache index) := by
  constructor
  · intro slot member negative
    rcases List.mem_or_eq_of_mem_set member with old | rfl
    · exact wellFormed.unused slot old negative
    · rfl
  · cases there : cache[index]? with
    | none =>
        rw [markCacheSlotEmpty, List.set_eq_of_length_le (List.getElem?_eq_none_iff.mp there)]
        exact wellFormed.distinct
    | some slot =>
        obtain ⟨before, after, whole, left⟩ := entries_clear cache index slot there
        have distinct := wellFormed.distinct
        rw [whole] at distinct
        rw [left]
        refine distinct.sublist (List.Sublist.map _ ?_)
        exact (List.sublist_append_left before _).append_right after

/-- The pathname that `rewriteCachedPaths` leaves in a slot. -/
def rewritten (old new path : Path) : Path :=
  if covers slash old path then clip (reroot old new path) else path

theorem entries_rewrite (cache : Cache) (oldDir oldName newDir newName : Path) :
    entries (rewriteCachedPaths cache oldDir oldName newDir newName) =
      (entries cache).map fun entry =>
        (entry.1, rewritten (fullPath oldDir oldName) (fullPath newDir newName) entry.2) := by
  unfold rewriteCachedPaths entries
  rw [List.filterMap_map, List.map_filterMap]
  congr 1
  funext slot
  simp only [Function.comp, rewritten, used]
  by_cases hit : covers slash (fullPath oldDir oldName) slot.path = true
  · by_cases valid : 0 ≤ slot.wd <;> simp [hit, valid]
  · by_cases valid : 0 ≤ slot.wd <;> simp [hit, valid]

theorem rewrite_well_formed (cache : Cache) (oldDir oldName newDir newName : Path)
    (wellFormed : WellFormed cache) :
    WellFormed (rewriteCachedPaths cache oldDir oldName newDir newName) := by
  constructor
  · intro slot member negative
    obtain ⟨before, inside, rfl⟩ := List.mem_map.mp member
    have outside : covers slash (fullPath oldDir oldName) [] = false := by
      rw [Bool.eq_false_iff, Ne, covers_iff]
      intro below
      have empty := below_length slash _ _ below
      simp [fullPath, clip, join, PATH_MAX] at empty
    split at negative
    · next hit =>
        rw [wellFormed.unused before inside negative] at hit
        rw [unusedSlot, outside] at hit
        cases hit
    · next miss =>
        rw [if_neg miss]
        exact wellFormed.unused before inside negative
  · rw [entries_rewrite, List.map_map]
    exact wellFormed.distinct

end Tlpi.WatchCache

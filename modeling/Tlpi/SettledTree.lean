import Mathlib.Data.List.Basic
import Mathlib.Data.List.ReduceOption
import Tlpi.WatchSet
import Tlpi.EventReader

/-!
inotify_dtree.c when every change is handled before the next one. The events of
a change are handled in one go, which is what the reading loop computes; watches
that are removed on the way leave IN_IGNORED events for one more call. Now the
walks and the removal of a subtree run undisturbed, and each has a specification
in terms of the entries and the watches. `nftw` is any function that visits
every directory of a subtree.
-/

namespace Tlpi.SettledTree

open PathName WatchCache TreeMonitor FileTree WatchSet EventReader

section Program
variable (nftw : System → Path → List Path)

def kernel : Kernel System := ⟨addWatch, rmWatch, nftw, FileTree.init⟩

/-- The name of an event is padded with nulls to a multiple of the size of an event. -/
def padded (ev : Event) : Record :=
  ⟨ev, if ev.name = [] then 0 else (ev.name.length / sizeofEvent + 1) * sizeofEvent⟩

def withQueue (world : World System) (queue : List Event) : World System :=
  { world with state := { world.state with queue := queue } }

/-- One call of `processInotifyEvents` on everything that is queued. -/
def processInotifyEvents (world : World System) : Option (World System) :=
  handleAll (kernel nftw) (withQueue world []) (world.state.queue.map padded)

/-- The main loop, as long as there is something to read. -/
def drain : Nat → World System → Option (World System)
  | 0, world => some world
  | count + 1, world =>
      if world.state.queue = [] then some world
      else (processInotifyEvents nftw world).bind (drain count)

/-- A change and the handling of its events; the second call gets IN_IGNORED only. -/
def turn (op : Op) (world : World System) : Option (World System) :=
  (effect world.state op).bind fun effect => drain nftw 2 { world with state := happen effect }

def start (roots : List Path) (sys : System) : Option (World System) :=
  reinitialize (kernel nftw) ⟨[], roots.map some, sys, []⟩

/-- `nftw` calls back for the directories of the subtree, in some order. -/
def Visits : Prop := ∀ sys, FilesOk sys → ∀ path one,
  one ∈ nftw sys path ↔ isDirectory sys.files one = true ∧ Below slash path one

end Program

/-! What holds all the time. -/

/-- The program before a rebuild, which excuses every entry. -/
def held (world : World System) : TreeRace.State :=
  ⟨world, [.reinit true], [], true, false, 0, false⟩

structure Sane (world : World System) : Prop where
  agrees : Agrees (held world)
  files : FilesOk world.state
  limit : world.state.limit = none

theorem sane_queue (world : World System) (sane : Sane world) : Sane (withQueue world []) := by
  obtain ⟨agrees, files, limit⟩ := sane
  refine ⟨⟨system_ok_fewer world.state _ agrees.ok (.refl _) rfl agrees.ok.late,
    agrees.wellFormed, agrees.cached,
    fun wd listed => Or.inr (Or.inl ⟨true, List.mem_cons_self⟩), agrees.numbers, ?_,
    ?_⟩, files_ok_same _ _ files rfl rfl, limit⟩
  · intro ev member
    cases member
  · intro ev member
    cases member

/-! Walks. -/

/-- What a walk leaves: the directories it has seen are watched, and every new watch
has a new entry under the name it was seen with. -/
structure Walked (before after : World System) (seen : Path → Prop) : Prop where
  roots : after.roots = before.roots
  files : after.state.files = before.state.files
  queue : after.state.queue = before.state.queue
  sane : Sane after
  watched : ∀ file ∈ before.state.files, seen file.path → ∃ watch ∈ after.state.watches,
    watch.ino = file.ino
  kept : ∀ watch ∈ before.state.watches, ∃ same ∈ after.state.watches,
    same.wd = watch.wd ∧ same.ino = watch.ino
  origin : ∀ watch ∈ after.state.watches,
    (∃ old ∈ before.state.watches, old.wd = watch.wd ∧ old.ino = watch.ino) ∨
    watch.wd ∉ descriptors before.cache ∧ ∃ file ∈ before.state.files,
      seen file.path ∧ file.ino = watch.ino
  flags : ∀ watch ∈ after.state.watches, watch ∈ before.state.watches ∨
    ∃ file ∈ before.state.files, seen file.path ∧ file.ino = watch.ino ∧
      watch.moveSelf = moveSelfFlag before.roots file.path
  entries : ∀ entry ∈ entries before.cache, entry ∈ WatchCache.entries after.cache
  added : ∀ wd path, (wd, path) ∈ WatchCache.entries after.cache →
    (wd, path) ∈ WatchCache.entries before.cache ∨
      wd ∉ descriptors before.cache ∧ seen path ∧
      ∃ file ∈ before.state.files, file.path = path ∧
        ∃ watch ∈ after.state.watches, watch.wd = wd ∧ watch.ino = file.ino

theorem walked_refl (world : World System) (sane : Sane world) :
    Walked world world fun _ => False :=
  ⟨rfl, rfl, rfl, sane, fun _ _ bad => bad.elim, fun watch there => ⟨watch, there, rfl, rfl⟩,
    fun watch there => Or.inl ⟨watch, there, rfl, rfl⟩, fun _ => Or.inl, fun _ => id,
    fun _ _ => Or.inl⟩

theorem walked_descriptors (before after : World System) (seen : Path → Prop)
    (walked : Walked before after seen) (wd : Int) (listed : wd ∈ descriptors before.cache) :
    wd ∈ descriptors after.cache := by
  obtain ⟨entry, there, same⟩ := List.mem_map.mp listed
  exact List.mem_map.mpr ⟨entry, walked.entries entry there, same⟩

theorem walked_trans (first second third : World System) (seen more : Path → Prop)
    (one : Walked first second seen) (two : Walked second third more) :
    Walked first third fun path => seen path ∨ more path := by
  have later := walked_descriptors first second seen one
  refine ⟨two.roots.trans one.roots, two.files.trans one.files, two.queue.trans one.queue,
    two.sane, ?_, ?_, ?_, ?_, fun entry there => two.entries entry (one.entries entry there), ?_⟩
  · rintro file member (early | late)
    · obtain ⟨watch, there, ino⟩ := one.watched file member early
      obtain ⟨same, after, _, inos⟩ := two.kept watch there
      exact ⟨same, after, inos.trans ino⟩
    · exact two.watched file (one.files ▸ member) late
  · intro watch there
    obtain ⟨middle, inside, wd, ino⟩ := one.kept watch there
    obtain ⟨last, after, wd', ino'⟩ := two.kept middle inside
    exact ⟨last, after, wd'.trans wd, ino'.trans ino⟩
  · intro watch there
    rcases two.origin watch there with ⟨middle, inside, wd, ino⟩ |
      ⟨fresh, file, member, late, ino⟩
    · rcases one.origin middle inside with ⟨old, before, wd', ino'⟩ |
        ⟨fresh, file, member, early, ino'⟩
      · exact Or.inl ⟨old, before, wd'.trans wd, ino'.trans ino⟩
      · exact Or.inr ⟨wd ▸ fresh, file, member, Or.inl early, ino'.trans ino⟩
    · exact Or.inr ⟨fun old => fresh (later _ old), file, one.files ▸ member,
        Or.inr late, ino⟩
  · intro watch there
    rcases two.flags watch there with inside | ⟨file, member, late, ino, flag⟩
    · rcases one.flags watch inside with old | ⟨file, member, early, ino, flag⟩
      · exact Or.inl old
      · exact Or.inr ⟨file, member, Or.inl early, ino, flag⟩
    · exact Or.inr ⟨file, one.files ▸ member, Or.inr late, ino, one.roots ▸ flag⟩
  · intro wd path there
    rcases two.added wd path there with inside |
      ⟨fresh, late, file, member, named, watch, living, facts⟩
    · rcases one.added wd path inside with old |
        ⟨fresh, early, file, member, named, watch, living, wds, ino⟩
      · exact Or.inl old
      · obtain ⟨same, after, wd', ino'⟩ := two.kept watch living
        exact Or.inr ⟨fresh, Or.inl early, file, member, named, same, after,
          wd'.trans wds, ino'.trans ino⟩
    · exact Or.inr ⟨fun old => fresh (later _ old), Or.inr late, file,
        one.files ▸ member, named, watch, living, facts⟩

theorem walked_same (before after : World System) (seen more : Path → Prop)
    (walked : Walked before after seen) (same : ∀ path, seen path ↔ more path) :
    Walked before after more := by
  obtain rfl : seen = more := funext fun path => propext (same path)
  exact walked

section Walk
variable (nftw : System → Path → List Path)

theorem traverse_walked (world : World System) (sane : Sane world) (path : Path)
    (directory : isDirectory world.state.files path = true) :
    ∃ after, traverseTree (kernel nftw) world path = some after ∧
      Walked world after (· = path) := by
  obtain ⟨file, member, rfl, _⟩ := (is_directory_iff _ sane.files.paths path).mp directory
  obtain ⟨after, walked⟩ :=
    traverse_total (kernel nftw) rfl world sane.files file.path directory
  have grown := walk_grown (kernel nftw) rfl world after sane.agrees.ok.positive sane.agrees.cached
    (fun wd listed => (sane.agrees.numbers wd listed).2) file
    (lookup_mem _ sane.files.paths file member) walked
  obtain ⟨roots, files, nextIno, queue, limit, _, _⟩ := grown.rest
  refine ⟨after, walked, roots, files, queue, ⟨?_, ?_, limit.trans sane.limit⟩, ?_,
    grown.kept, ?_, ?_, grown.entries, ?_⟩
  · exact traverse_agrees false (held world) file.path after sane.agrees walked
  · exact files_ok_same _ _ sane.files files nextIno
  · intro other inside same
    rw [List.inj_on_of_nodup_map sane.files.paths inside member same]
    exact grown.watched
  · intro watch there
    rcases grown.origin watch there with old | ⟨ino, fresh⟩
    · exact Or.inl old
    · exact Or.inr ⟨fresh, file, member, rfl, ino.symm⟩
  · intro watch there
    rcases grown.flags watch there with old | ⟨ino, flag⟩
    · exact Or.inl old
    · exact Or.inr ⟨file, member, rfl, ino.symm, flag⟩
  · intro wd path there
    rcases grown.added wd path there with old | ⟨rfl, fresh, watch, living, facts⟩
    · exact Or.inl old
    · exact Or.inr ⟨fresh, rfl, file, member, rfl, watch, living, facts⟩

theorem walk_all (paths : List Path) (world : World System) (sane : Sane world)
    (directories : ∀ path ∈ paths, isDirectory world.state.files path = true) :
    ∃ after, paths.foldlM (traverseTree (kernel nftw)) world = some after ∧
      Walked world after (· ∈ paths) := by
  induction paths generalizing world with
  | nil => exact ⟨world, rfl, walked_same _ _ _ _ (walked_refl world sane) (by simp)⟩
  | cons path rest ih =>
      obtain ⟨middle, first, one⟩ :=
        traverse_walked nftw world sane path (directories path List.mem_cons_self)
      obtain ⟨after, others, two⟩ := ih middle one.sane fun other member => by
        rw [one.files]
        exact directories other (List.mem_cons_of_mem _ member)
      refine ⟨after, ?_, walked_same _ _ _ _ (walked_trans _ _ _ _ _ one two) (by simp)⟩
      rw [List.foldlM_cons, first]
      exact others

variable (visits : Visits nftw)
include visits

theorem watch_dir_walked (world : World System) (sane : Sane world) (root : Path) :
    ∃ after, watchDir (kernel nftw) world root = some after ∧
      Walked world after fun path => isDirectory world.state.files path = true ∧
        Below slash root path := by
  obtain ⟨after, walk, walked⟩ :=
    walk_all nftw (nftw world.state root) world sane fun path member =>
      ((visits world.state sane.files root path).mp member).1
  exact ⟨after, walk, walked_same _ _ _ _ walked fun path =>
    visits world.state sane.files root path⟩

theorem watch_dirs_walked (roots : List Path) (world : World System) (sane : Sane world) :
    ∃ after, roots.foldlM (watchDir (kernel nftw)) world = some after ∧
      Walked world after fun path => isDirectory world.state.files path = true ∧
        ∃ root ∈ roots, Below slash root path := by
  induction roots generalizing world with
  | nil => exact ⟨world, rfl, walked_same _ _ _ _ (walked_refl world sane) (by simp)⟩
  | cons root rest ih =>
      obtain ⟨middle, first, one⟩ := watch_dir_walked nftw visits world sane root
      obtain ⟨after, others, two⟩ := ih middle one.sane
      refine ⟨after, ?_, walked_same _ _ _ _ (walked_trans _ _ _ _ _ one two) fun path => ?_⟩
      · rw [List.foldlM_cons, first]
        exact others
      · rw [one.files]
        simp only [List.mem_cons, exists_eq_or_imp, and_or_left]

end Walk

/-! Removing a subtree. -/

def zapOne (pn : Path) (slot : Slot) : Slot :=
  if 0 ≤ slot.wd ∧ covers slash pn slot.path then unusedSlot else slot

/-- What the turns of `zapSubtree` leave. -/
structure Cleared (pn : Path) (indices : List Nat) (before after : World System) : Prop where
  roots : after.roots = before.roots
  files : after.state.files = before.state.files
  sane : Sane after
  queue : ∀ ev ∈ after.state.queue, ev ∈ before.state.queue ∨ ev.mask = IN_IGNORED
  slots : ∀ index, after.cache[index]? =
    if index ∈ indices then before.cache[index]?.map (zapOne pn) else before.cache[index]?
  watches : ∀ watch, watch ∈ after.state.watches ↔ watch ∈ before.state.watches ∧
    (watch.wd ∈ descriptors before.cache → watch.wd ∈ descriptors after.cache)

theorem zap_one_idem (pn : Path) (slot : Slot) : zapOne pn (zapOne pn slot) = zapOne pn slot := by
  unfold zapOne
  by_cases hit : 0 ≤ slot.wd ∧ covers slash pn slot.path = true
  · rw [if_pos hit, if_neg (by simp [unusedSlot])]
  · rw [if_neg hit, if_neg hit]

section Zap
variable (nftw : System → Path → List Path) (pn : Path)

/-- One turn, when the watch of a covered slot is there. -/
theorem zap_slot_cleared (index : Nat) (world : World System) (sane : Sane world)
    (live : ∀ wd path, (wd, path) ∈ entries world.cache → covers slash pn path = true →
      ∃ watch ∈ world.state.watches, watch.wd = wd) :
    ∃ after, zapSlot (kernel nftw) pn world index = (true, after) ∧
      Cleared pn [index] world after := by
  have agrees := zap_slot_agrees false (held world) pn index sane.agrees
  have cases := zap_slot_cases (kernel nftw) pn world index
  have same : zapSlot (TreeRace.kernel false) pn (held world).world index =
      zapSlot (kernel nftw) pn world index := rfl
  rw [same] at agrees
  generalize zapSlot (kernel nftw) pn world index = outcome at cases agrees ⊢
  cases cases with
  | skipped other =>
      refine ⟨world, rfl, rfl, rfl, sane, fun _ => Or.inl, fun place => ?_,
        fun watch => by simp⟩
      · split
        · next here =>
            obtain rfl := List.mem_singleton.mp here
            cases there : world.cache[place]? with
            | none => rfl
            | some slot =>
                rw [List.getD_eq_getElem?_getD, there] at other
                exact congrArg some (if_neg other).symm
        · rfl
  | removed slot calls there valid hit done =>
      obtain ⟨wd, label⟩ := slot
      have removed : (rmWatch world.state wd).2 =
          { world.state with
            watches := world.state.watches.filter (·.wd != wd)
            queue := world.state.queue ++ [⟨wd, IN_IGNORED, 0, []⟩] } := by
        rw [show (rmWatch world.state wd).2 = _ from rm_done false world.state wd done]
        exact post_unlimited _ _ sane.limit
      have gone : ((kernel nftw).rmWatch world.state wd).2 = (rmWatch world.state wd).2 := rfl
      rw [gone, removed] at agrees ⊢
      refine ⟨_, rfl, rfl, rfl, ⟨agrees, files_ok_same _ _ sane.files rfl rfl, sane.limit⟩,
        ?_, ?_, ?_⟩
      · intro ev member
        rcases List.mem_append.mp member with old | new
        · exact Or.inl old
        · exact Or.inr (by rw [List.mem_singleton.mp new])
      · intro place
        change (world.cache.set index unusedSlot)[place]? = _
        by_cases here : place = index
        · subst here
          rw [if_pos List.mem_cons_self, there,
            List.getElem?_set_self (List.getElem?_eq_some_iff.mp there).1]
          exact congrArg some (if_pos ⟨valid, hit⟩).symm
        · rw [if_neg (by simpa using here), List.getElem?_set_ne (Ne.symm here)]
      · intro watch
        change watch ∈ world.state.watches.filter (·.wd != wd) ↔
          _ ∧ (_ → _ ∈ descriptors (markCacheSlotEmpty world.cache index))
        rw [List.mem_filter, bne_iff_ne,
          descriptors_clear world.cache sane.agrees.wellFormed index wd label valid there]
        have listed : wd ∈ descriptors world.cache :=
          List.mem_map.mpr ⟨_,
            (mem_entries _ wd label).mpr ⟨valid, List.mem_of_getElem? there⟩, rfl⟩
        refine and_congr_right fun _ => ⟨fun other old => ⟨old, other⟩, ?_⟩
        rintro stays rfl
        exact (stays listed).2 rfl
  | failed slot calls there valid hit failed =>
      obtain ⟨wd, label⟩ := slot
      obtain ⟨watch, living, number⟩ :=
        live wd label ((mem_entries _ wd label).mpr ⟨valid, List.mem_of_getElem? there⟩) hit
      exfalso
      change (rmWatch world.state wd).1 = false at failed
      unfold rmWatch at failed
      split at failed
      · next missing =>
          have miss := List.find?_eq_none.mp missing watch living
          simp [number] at miss
      · cases failed

theorem cleared_entries (indices : List Nat) (before after : World System)
    (cleared : Cleared pn indices before after) (wd : Int) (path : Path)
    (member : (wd, path) ∈ entries after.cache) : (wd, path) ∈ entries before.cache := by
  obtain ⟨valid, there⟩ := (mem_entries _ wd path).mp member
  obtain ⟨index, at_⟩ := List.getElem?_of_mem there
  rw [cleared.slots index] at at_
  refine (mem_entries _ wd path).mpr ⟨valid, List.mem_of_getElem? (i := index) ?_⟩
  split at at_
  · obtain ⟨slot, held, zapped⟩ := Option.map_eq_some_iff.mp at_
    unfold zapOne at zapped
    split at zapped
    · cases zapped
      exact absurd valid (by decide)
    · rw [held, zapped]
  · exact at_

theorem cleared_descriptors (indices : List Nat) (before after : World System)
    (cleared : Cleared pn indices before after) (wd : Int)
    (listed : wd ∈ descriptors after.cache) : wd ∈ descriptors before.cache := by
  obtain ⟨⟨number, path⟩, cached, rfl⟩ := List.mem_map.mp listed
  exact List.mem_map.mpr ⟨_, cleared_entries pn indices before after cleared number path cached,
    rfl⟩

theorem zap_slots_cleared (indices : List Nat) (world : World System) (sane : Sane world)
    (live : ∀ wd path, (wd, path) ∈ entries world.cache → covers slash pn path = true →
      ∃ watch ∈ world.state.watches, watch.wd = wd) :
    ∃ after, zapSlots (kernel nftw) pn indices world = (true, after) ∧
      Cleared pn indices world after := by
  induction indices generalizing world with
  | nil =>
      exact ⟨world, rfl, rfl, rfl, sane, fun _ => Or.inl, by simp, fun watch => by simp⟩
  | cons index rest ih =>
      obtain ⟨middle, first, one⟩ := zap_slot_cleared nftw pn index world sane live
      have stillLive : ∀ wd path, (wd, path) ∈ entries middle.cache →
        covers slash pn path = true →
          ∃ watch ∈ middle.state.watches, watch.wd = wd := by
        intro wd path cached hit
        have earlier := cleared_entries pn [index] world middle one wd path cached
        obtain ⟨watch, living, number⟩ := live wd path earlier hit
        refine ⟨watch, (one.watches watch).mpr ⟨living, fun _ => ?_⟩, number⟩
        rw [number]
        exact List.mem_map.mpr ⟨_, cached, rfl⟩
      obtain ⟨after, others, two⟩ := ih middle one.sane stillLive
      refine ⟨after, ?_, two.roots.trans one.roots, two.files.trans one.files,
        two.sane, ?_, ?_, ?_⟩
      · rw [zapSlots, first]
        exact others
      · intro ev member
        rcases two.queue ev member with inside | mask
        · exact one.queue ev inside
        · exact Or.inr mask
      · intro place
        rw [two.slots place, one.slots place]
        by_cases here : place = index
        · subst here
          simp only [List.mem_cons, true_or, if_true]
          split
          · rw [Option.map_map]
            congr 1
            funext slot
            exact zap_one_idem pn slot
          · rfl
        · simp [here]
      · intro watch
        rw [two.watches watch, one.watches watch, and_assoc]
        have last := cleared_descriptors pn rest middle after two watch.wd
        have first := cleared_descriptors pn [index] world middle one watch.wd
        tauto

theorem zap_subtree_cleared (world : World System) (sane : Sane world)
    (live : ∀ wd path, (wd, path) ∈ entries world.cache → Below slash pn path →
      ∃ watch ∈ world.state.watches, watch.wd = wd) :
    ∃ after, zapSubtree (kernel nftw) world pn = (true, after) ∧
      Cleared pn (List.range world.cache.length) world after :=
  zap_slots_cleared nftw pn _ world sane fun wd path cached hit =>
    live wd path cached ((covers_iff slash pn path).mp hit)

theorem cleared_all (before after : World System)
    (cleared : Cleared pn (List.range before.cache.length) before after) (wd : Int) (path : Path) :
    (wd, path) ∈ entries after.cache ↔ (wd, path) ∈ entries before.cache ∧
      ¬ Below slash pn path := by
  constructor
  · intro member
    refine ⟨cleared_entries pn _ before after cleared wd path member, fun below => ?_⟩
    obtain ⟨valid, there⟩ := (mem_entries _ wd path).mp member
    obtain ⟨index, found⟩ := List.getElem?_of_mem there
    rw [cleared.slots index] at found
    split at found
    · obtain ⟨slot, _, zapped⟩ := Option.map_eq_some_iff.mp found
      unfold zapOne at zapped
      split at zapped
      · cases zapped
        exact absurd valid (by decide)
      · next miss =>
          subst zapped
          exact miss ⟨valid, (covers_iff slash pn path).mpr below⟩
    · next outside =>
        have inside := (List.getElem?_eq_some_iff.mp found).1
        exact outside (List.mem_range.mpr inside)
  · rintro ⟨member, outside⟩
    obtain ⟨valid, there⟩ := (mem_entries _ wd path).mp member
    obtain ⟨index, found⟩ := List.getElem?_of_mem there
    refine (mem_entries _ wd path).mpr ⟨valid, List.mem_of_getElem? (i := index) ?_⟩
    rw [cleared.slots index, found]
    have kept : zapOne pn ⟨wd, path⟩ = ⟨wd, path⟩ :=
      if_neg fun hit => outside ((covers_iff slash pn path).mp hit.2)
    split
    · exact congrArg some kept
    · rfl

/-- Successful or not, the removal leaves the files, the roots and a sane state, and it
succeeds only if every covered slot has its watch. -/
theorem zap_slots_any (indices : List Nat) (world : World System) (sane : Sane world) :
    Sane (zapSlots (kernel nftw) pn indices world).2 ∧
    (zapSlots (kernel nftw) pn indices world).2.roots = world.roots ∧
    (zapSlots (kernel nftw) pn indices world).2.state.files = world.state.files ∧
    ((zapSlots (kernel nftw) pn indices world).1 = true → ∀ index ∈ indices, ∀ wd path,
      world.cache[index]? = some ⟨wd, path⟩ → 0 ≤ wd → Below slash pn path →
        ∃ watch ∈ world.state.watches, watch.wd = wd) := by
  induction indices generalizing world with
  | nil => exact ⟨sane, rfl, rfl, fun _ index member => by cases member⟩
  | cons index rest ih =>
      have agrees := zap_slot_agrees false (held world) pn index sane.agrees
      have cases := zap_slot_cases (kernel nftw) pn world index
      have same : zapSlot (TreeRace.kernel false) pn (held world).world index =
          zapSlot (kernel nftw) pn world index := rfl
      rw [same] at agrees
      rw [zapSlots]
      generalize zapSlot (kernel nftw) pn world index = outcome at cases agrees ⊢
      cases cases with
      | skipped other =>
          obtain ⟨later, roots, files, done⟩ := ih world sane
          refine ⟨later, roots, files, fun success place member wd path there valid below => ?_⟩
          rcases List.mem_cons.mp member with rfl | tail
          · rw [List.getD_eq_getElem?_getD, there] at other
            exact absurd ⟨valid, (covers_iff slash pn path).mpr below⟩ other
          · exact done success place tail wd path there valid below
      | removed slot calls there valid hit removed =>
          obtain ⟨wd, label⟩ := slot
          have dropped : ((kernel nftw).rmWatch world.state wd).2 =
              { world.state with
                watches := world.state.watches.filter (·.wd != wd)
                queue := world.state.queue ++ [⟨wd, IN_IGNORED, 0, []⟩] } := by
            rw [show ((kernel nftw).rmWatch world.state wd).2 =
                _ from rm_done false world.state wd removed]
            exact post_unlimited _ _ sane.limit
          rw [dropped] at agrees ⊢
          obtain ⟨later, roots, files, done⟩ :=
            ih _ ⟨agrees, files_ok_same _ _ sane.files rfl rfl, sane.limit⟩
          refine ⟨later, roots, files,
            fun success place member number path here positive below => ?_⟩
          by_cases first : place = index
          · subst first
            cases Option.some.inj (there.symm.trans here)
            unfold kernel rmWatch at removed
            dsimp only at removed
            split at removed
            · cases removed
            · next watch found =>
                have fits := List.find?_some found
                exact ⟨watch, List.mem_of_find?_eq_some found, beq_iff_eq.mp fits⟩
          · obtain ⟨watch, living, same⟩ := done success place
              ((List.mem_cons.mp member).resolve_left first) number path
              (by rw [markCacheSlotEmpty, List.getElem?_set_ne (Ne.symm first)]; exact here)
                positive below
            exact ⟨watch, (List.mem_filter.mp living).1, same⟩
      | failed slot calls there valid hit failed =>
          have unchanged : ((kernel nftw).rmWatch world.state slot.wd).2 = world.state :=
            rm_failed false world.state slot.wd failed
          rw [unchanged] at agrees ⊢
          exact ⟨⟨agrees, sane.files, sane.limit⟩, rfl, rfl,
            fun success => by cases success⟩

/-- A covered slot whose watch is gone makes `zapSubtree` fail. -/
theorem zap_subtree_fails (world : World System) (sane : Sane world) (wd : Int) (path : Path)
    (cached : (wd, path) ∈ entries world.cache) (below : Below slash pn path)
    (dead : ∀ watch ∈ world.state.watches, watch.wd ≠ wd) :
    ∃ after, zapSubtree (kernel nftw) world pn = (false, after) ∧ Sane after ∧
      after.roots = world.roots ∧ after.state.files = world.state.files := by
  obtain ⟨later, roots, files, done⟩ :=
    zap_slots_any nftw pn (List.range world.cache.length) world sane
  obtain ⟨valid, there⟩ := (mem_entries _ wd path).mp cached
  obtain ⟨index, found⟩ := List.getElem?_of_mem there
  have inside := (List.getElem?_eq_some_iff.mp found).1
  refine ⟨(zapSubtree (kernel nftw) world pn).2, ?_, later, roots, files⟩
  cases outcome : (zapSubtree (kernel nftw) world pn).1 with
  | true =>
      obtain ⟨watch, living, same⟩ :=
        done outcome index (List.mem_range.mpr inside) wd path found valid below
      exact absurd same (dead watch living)
  | false =>
      rw [← outcome]

end Zap

/-! What the cache is for. -/

def Monitored (roots : RootDirPaths) (path : Path) : Prop :=
  ∃ root, some root ∈ roots ∧ Below slash root path

/-- Every directory at or below a listed root has one slot, with its descriptor and its
name, and there are no other slots. -/
structure Mirrors (world : World System) : Prop where
  slots : ∀ wd path, (wd, path) ∈ entries world.cache ↔
    ∃ file ∈ world.state.files, file.isDir = true ∧ Monitored world.roots file.path ∧
      file.path = path ∧
      ∃ watch ∈ world.state.watches, watch.ino = file.ino ∧ watch.wd = wd
  every : ∀ file ∈ world.state.files, file.isDir = true → Monitored world.roots file.path →
    ∃ wd, (wd, file.path) ∈ entries world.cache
  descriptors : ((entries world.cache).map Prod.fst).Nodup
  pathnames : ((entries world.cache).map Prod.snd).Nodup

structure Settled (world : World System) : Prop where
  sane : Sane world
  quiet : world.state.queue = []
  mirrors : Mirrors world

def Watched (sys : System) (file : File) : Prop := ∃ watch ∈ sys.watches, watch.ino = file.ino

/-- Every entry carries the current name of a watched file. -/
def Named (world : World System) : Prop := ∀ wd path, (wd, path) ∈ entries world.cache →
  ∃ watch ∈ world.state.watches, watch.wd = wd ∧
    ∃ file ∈ world.state.files, file.ino = watch.ino ∧ file.path = path

def Exact (world : World System) : Prop := ∀ file ∈ world.state.files,
  Watched world.state file ↔ file.isDir = true ∧ Monitored world.roots file.path

theorem watch_unique (world : World System) (sane : Sane world) (one other : Watch)
    (first : one ∈ world.state.watches) (second : other ∈ world.state.watches)
    (same : one.wd = other.wd) : one = other :=
  List.inj_on_of_nodup_map sane.agrees.ok.descriptors first second same

theorem ino_unique (world : World System) (sane : Sane world) (one other : Watch)
    (first : one ∈ world.state.watches) (second : other ∈ world.state.watches)
    (same : one.ino = other.ino) : one = other :=
  List.inj_on_of_nodup_map sane.agrees.ok.inodes first second same

theorem file_unique (world : World System) (sane : Sane world) (one other : File)
    (first : one ∈ world.state.files) (second : other ∈ world.state.files)
    (same : one.ino = other.ino) : one = other :=
  List.inj_on_of_nodup_map sane.files.inodes first second same

theorem cached_entry (world : World System) (sane : Sane world) (watch : Watch)
    (living : watch ∈ world.state.watches) :
    ∃ path, (watch.wd, path) ∈ entries world.cache := by
  obtain ⟨⟨wd, path⟩, cached, same⟩ := List.mem_map.mp (sane.agrees.cached watch living)
  exact ⟨path, by rw [← same]; exact cached⟩

theorem mirrors_of (world : World System) (sane : Sane world) (named : Named world)
    (exact_ : Exact world) : Mirrors world := by
  have owner : ∀ file ∈ world.state.files, ∀ watch ∈ world.state.watches,
    watch.ino = file.ino →
      (watch.wd, file.path) ∈ entries world.cache := by
    intro file member watch living ino
    obtain ⟨path, cached⟩ := cached_entry world sane watch living
    obtain ⟨same, there, number, other, inside, owned, rfl⟩ := named _ path cached
    obtain rfl := watch_unique world sane same watch there living number
    rw [file_unique world sane file other member inside (ino.symm.trans owned.symm)]
    exact cached
  refine ⟨?_, ?_, sane.agrees.wellFormed.distinct, ?_⟩
  · intro wd path
    constructor
    · intro cached
      obtain ⟨watch, living, number, file, member, ino, label⟩ := named wd path cached
      obtain ⟨directory, monitored⟩ := (exact_ file member).mp ⟨watch, living, ino.symm⟩
      exact ⟨file, member, directory, monitored, label, watch, living, ino.symm, number⟩
    · rintro ⟨file, member, _, _, rfl, watch, living, ino, rfl⟩
      exact owner file member watch living ino
  · intro file member directory monitored
    obtain ⟨watch, living, ino⟩ := (exact_ file member).mpr ⟨directory, monitored⟩
    exact ⟨watch.wd, owner file member watch living ino⟩
  · -- one name has one file, one file has one watch
    refine sane.agrees.wellFormed.distinct.of_map.map_on ?_
    rintro ⟨wd, path⟩ first ⟨number, label⟩ second same
    obtain rfl : path = label := same
    obtain ⟨watch, living, rfl, file, member, ino, rfl⟩ := named wd path first
    obtain ⟨other, there, rfl, owner, inside, owned, path⟩ := named number _ second
    obtain rfl := List.inj_on_of_nodup_map sane.files.paths inside member path
    rw [ino_unique world sane watch other living there (ino.symm.trans owned)]

section Mirrors
variable (world : World System) (settled : Settled world)
include settled

theorem settled_named : Named world := by
  intro wd path cached
  obtain ⟨file, member, _, _, rfl, watch, living, ino, rfl⟩ :=
    (settled.mirrors.slots wd path).mp cached
  exact ⟨watch, living, rfl, file, member, ino.symm, rfl⟩

/-- A watch has a file, and the entry with its name. -/
theorem settled_owned (watch : Watch) (living : watch ∈ world.state.watches) :
    ∃ file ∈ world.state.files, watch.ino = file.ino ∧ file.isDir = true ∧
      Monitored world.roots file.path ∧ (watch.wd, file.path) ∈ entries world.cache := by
  obtain ⟨path, cached⟩ := cached_entry world settled.sane watch living
  obtain ⟨file, member, directory, monitored, rfl, other, there, ino, number⟩ :=
    (settled.mirrors.slots _ path).mp cached
  obtain rfl := watch_unique world settled.sane other watch there living number
  exact ⟨file, member, ino, directory, monitored, cached⟩

theorem settled_exact : Exact world := by
  intro file member
  constructor
  · rintro ⟨watch, living, ino⟩
    obtain ⟨owner, inside, owned, directory, monitored, _⟩ :=
      settled_owned world settled watch living
    rw [file_unique world settled.sane file owner member inside (ino.symm.trans owned)]
    exact ⟨directory, monitored⟩
  · rintro ⟨directory, monitored⟩
    obtain ⟨wd, cached⟩ := settled.mirrors.every file member directory monitored
    obtain ⟨other, inside, _, _, path, watch, living, ino, _⟩ :=
      (settled.mirrors.slots wd _).mp cached
    obtain rfl := List.inj_on_of_nodup_map settled.sane.files.paths inside member path
    exact ⟨watch, living, ino⟩

end Mirrors

/-! Walks that complete the picture. -/

theorem walked_settled (before after : World System) (seen : Path → Prop)
    (walked : Walked before after seen) (named : Named before)
    (exact_ : ∀ file ∈ before.state.files,
      Watched before.state file ∨ seen file.path ↔
        file.isDir = true ∧ Monitored before.roots file.path) :
    Settled (withQueue after []) := by
  have sane := sane_queue after walked.sane
  refine ⟨sane, rfl, mirrors_of _ sane ?_ ?_⟩
  · intro wd path cached
    rcases walked.added wd path cached with old |
      ⟨_, _, file, member, rfl, watch, living, rfl, ino⟩
    · obtain ⟨watch, living, rfl, file, member, ino, rfl⟩ := named wd path old
      obtain ⟨same, there, number, inode⟩ := walked.kept watch living
      exact ⟨same, there, number, file, walked.files ▸ member, ino.trans inode.symm, rfl⟩
    · exact ⟨watch, living, rfl, file, walked.files ▸ member, ino.symm, rfl⟩
  · intro file member
    have inside : file ∈ before.state.files := walked.files ▸ member
    change (∃ watch ∈ after.state.watches, watch.ino = file.ino) ↔
      _ ∧ Monitored after.roots file.path
    rw [walked.roots, ← exact_ file inside]
    constructor
    · rintro ⟨watch, living, ino⟩
      rcases walked.origin watch living with ⟨old, there, _, same⟩ |
        ⟨_, other, home, visited, same⟩
      · exact Or.inl ⟨old, there, same.trans ino⟩
      · rw [← List.inj_on_of_nodup_map walked.sane.files.inodes (walked.files ▸ home) member
          (same.trans ino)]
        exact Or.inr visited
    · rintro (⟨watch, living, ino⟩ | visited)
      · obtain ⟨same, there, _, inode⟩ := walked.kept watch living
        exact ⟨same, there, inode.trans ino⟩
      · exact walked.watched file inside visited

/-- The flags of a watch were chosen under the name that its file has. -/
def Flagged (world : World System) (watch : Watch) : Prop := ∃ file ∈ world.state.files,
  file.ino = watch.ino ∧ watch.moveSelf = moveSelfFlag world.roots file.path

theorem move_self_flag (roots : RootDirPaths) (path : Path) :
    moveSelfFlag roots path = true ↔ some path ∈ roots := by
  rw [← is_root_iff]
  unfold moveSelfFlag watchFlags
  cases isRootDirPath roots path <;> decide

structure Rebuilt (before after : World System) : Prop where
  settled : Settled after
  roots : after.roots = before.roots
  files : after.state.files = before.state.files
  flagged : ∀ watch ∈ after.state.watches, Flagged after watch

section Rebuild
variable (nftw : System → Path → List Path) (visits : Visits nftw)
include visits

/-- A rebuild starts from nothing, so it needs no agreement beforehand. -/
theorem reinitialize_rebuilt (world : World System) (files : FilesOk world.state)
    (limit : world.state.limit = none)
    (late : ∀ notices ∈ world.state.late, ∀ notice ∈ notices, harmless notice.mask = true) :
    ∃ after, reinitialize (kernel nftw) world = some after ∧ Rebuilt world after := by
  let empty : World System := { world with cache := [], state := FileTree.init world.state }
  have sane : Sane empty := by
    refine ⟨⟨⟨List.nodup_nil, List.nodup_nil, ?_, Int.le_refl 1, late⟩, empty_well_formed,
      ?_, ?_, ?_, ?_, ?_⟩, files_ok_same _ _ files rfl rfl, limit⟩ <;>
    · intro one member
      cases member
  obtain ⟨after, walk, walked⟩ :=
    watch_dirs_walked nftw visits world.roots.reduceOption empty sane
  have settled := walked_settled empty after _ walked (fun wd path cached => by cases cached) (by
    intro file member
    rw [is_directory_iff _ sane.files.paths]
    constructor
    · rintro (⟨watch, living, _⟩ | ⟨⟨other, inside, same, directory⟩,
        root, listed, below⟩)
      · cases living
      · obtain rfl := List.inj_on_of_nodup_map sane.files.paths inside member same
        exact ⟨directory, root, List.reduceOption_mem_iff.mp listed, below⟩
    · rintro ⟨directory, root, listed, below⟩
      exact Or.inr ⟨⟨file, member, rfl, directory⟩, root,
        List.reduceOption_mem_iff.mpr listed, below⟩)
  have quiet : withQueue after [] = after := by
    have queue : after.state.queue = [] := walked.queue
    unfold withQueue
    rw [← queue]
  rw [quiet] at settled
  refine ⟨after, walk, settled, walked.roots, walked.files, fun watch living => ?_⟩
  rcases walked.flags watch living with old | ⟨file, member, _, ino, flag⟩
  · cases old
  · refine ⟨file, ?_, ino, ?_⟩
    · rw [walked.files]
      exact member
    · rw [flag, walked.roots]

end Rebuild

end Tlpi.SettledTree


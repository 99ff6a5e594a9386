import Mathlib.Data.List.Basic
import Mathlib.Data.List.Count
import Tlpi.SettledTree

/-!
What the handling of each kind of event does to a sane state, in terms of the
entries, the watches and the listed roots. The events of one change are handled
from the front; each lemma takes off one event, or the two halves of a rename.
-/

namespace Tlpi.HandledEvents

open PathName WatchCache TreeMonitor FileTree WatchSet EventReader SettledTree

/-! The list of roots. -/

/-- No root is listed twice; the program refuses two arguments for one directory. -/
def Distinct (roots : RootDirPaths) : Prop := ∀ path, roots.count (some path) ≤ 1

/-- The program exits with its last root; otherwise just the one is taken off. -/
theorem zap_root_cases (roots : RootDirPaths) (distinct : Distinct roots) (path : Path)
    (listed : some path ∈ roots) :
    zapRootDirPath roots path = none ∧ (∀ other, some other ∈ roots → other = path) ∨
    ∃ left, zapRootDirPath roots path = some left ∧ Distinct left ∧
      ∀ other, some other ∈ left ↔ some other ∈ roots ∧ other ≠ path := by
  obtain ⟨index, found⟩ := Option.isSome_iff_exists.mp ((is_root_iff roots path).mpr listed)
  obtain ⟨inside, hit, _⟩ := List.findIdx?_eq_some_iff_getElem.mp found
  have here : roots[index] = some path := beq_iff_eq.mp hit
  have counts : ∀ other, (roots.set index none).count (some other) =
      if other = path then 0 else roots.count (some other) := by
    intro other
    rw [List.count_set inside, here]
    by_cases same : other = path
    · subst same
      have once := distinct other
      simp only [BEq.rfl, if_true, Option.none_beq_some, Bool.false_eq_true, if_false]
      omega
    · have different : (some path == some other) = false := by
        rw [beq_eq_false_iff_ne]
        intro bad
        exact same (Option.some.inj bad).symm
      simp [different, same]
  have left : ∀ other, some other ∈ roots.set index none ↔
      some other ∈ roots ∧ other ≠ path := by
    intro other
    rw [← List.count_pos_iff, counts, ← List.count_pos_iff]
    by_cases same : other = path <;> simp [same]
  unfold zapRootDirPath
  rw [found]
  dsimp only
  split
  · next all =>
      refine Or.inl ⟨rfl, fun other there => ?_⟩
      by_contra different
      have still := List.all_eq_true.mp all _ ((left other).mpr ⟨there, different⟩)
      cases still
  · refine Or.inr ⟨_, rfl, fun other => ?_, left⟩
    rw [counts]
    split
    · exact Nat.zero_le 1
    · exact distinct other

/-! The loop. -/

section Loop
variable (nftw : System → Path → List Path)

def handleEvents (world : World System) (events : List Event) : Option (World System) :=
  handleAll (kernel nftw) world (events.map padded)

theorem handle_events_cons (world : World System) (ev : Event) (rest : List Event) :
    handleEvents nftw world (ev :: rest) =
      match handle (kernel nftw) world ev rest.head? false with
      | none => none
      | some (world, .discard) => some world
      | some (world, .pair) => handleEvents nftw world rest.tail
      | some (world, _) => handleEvents nftw world rest := by
  have next : ((rest.map padded).head?.map Record.event) = rest.head? := by
    cases rest <;> rfl
  have tail : (rest.map padded).tail = rest.tail.map padded := by
    cases rest <;> rfl
  unfold handleEvents
  rw [List.map_cons, handle_all_cons, next, tail]
  rw [show (padded ev).event = ev from rfl]
  cases handle (kernel nftw) world ev rest.head? false with
  | none => rfl
  | some result =>
      obtain ⟨after, consumed⟩ := result
      cases consumed <;> rfl

/-- The event as far as it is handled without looking at the rest. -/
theorem handle_events_plan (world : World System) (ev : Event) (rest : List Event) (plan : Plan)
    (planned : processNextInotifyEvent world.cache world.roots ev rest.head? false = some plan) :
    handleEvents nftw world (ev :: rest) =
      match perform (kernel nftw) plan world with
      | none => none
      | some (world, .discard) => some world
      | some (world, .pair) => handleEvents nftw world rest.tail
      | some (world, _) => handleEvents nftw world rest := by
  rw [handle_events_cons, handle, planned, Option.bind_some]

theorem ignored_all (events : List Event) (world : World System)
    (ignored : ∀ ev ∈ events, ev.mask = IN_IGNORED) :
    handleEvents nftw world events = some world := by
  induction events with
  | nil => rfl
  | cons ev rest ih =>
      have mask := ignored ev List.mem_cons_self
      have slot : eventSlot world.cache ev = some 0 := by
        refine if_neg fun looked => ?_
        rw [mask] at looked
        exact absurd looked.2 (by decide)
      rw [handle_events_plan nftw world ev rest _
        (process_skipped world.cache world.roots ev rest.head? false 0 slot (Or.inl mask))]
      exact ih fun other member => ignored other (List.mem_cons_of_mem _ member)

section Turn
variable (op : Op) (world : World System) (effect : Effect)
  (made : FileTree.effect world.state op = some effect)
include made

/-- What is left in the queue is read once more and skipped. -/
theorem turn_settles (after : World System)
    (handled : handleEvents nftw (withQueue { world with state := happen effect } [])
      (happen effect).queue =
      some after)
    (ignored : ∀ ev ∈ after.state.queue, ev.mask = IN_IGNORED) :
    turn nftw op world = some (withQueue after []) := by
  unfold turn
  rw [made, Option.bind_some, drain]
  split
  · next empty =>
      change (happen effect).queue = [] at empty
      rw [empty] at handled
      cases handled
      unfold withQueue
      rw [← empty]
  · have first : processInotifyEvents nftw { world with state := happen effect } = some after :=
      handled
    rw [first, Option.bind_some, drain]
    split
    · next empty =>
        unfold withQueue
        rw [← empty]
    · have second : processInotifyEvents nftw after = some (withQueue after []) :=
        ignored_all nftw after.state.queue (withQueue after []) ignored
      rw [second]
      rfl

theorem turn_exits
    (handled : handleEvents nftw (withQueue { world with state := happen effect } [])
      (happen effect).queue =
      none) : turn nftw op world = none := by
  unfold turn
  rw [made, Option.bind_some, drain]
  split
  · next empty =>
      change (happen effect).queue = [] at empty
      rw [empty] at handled
      cases handled
  · have first : processInotifyEvents nftw { world with state := happen effect } = none := handled
    rw [first]
    rfl

end Turn

end Loop

/-! One event at a time. -/

theorem full_path (dir name path : Path) (whole : path = join slash dir name)
    (short : path.length < PATH_MAX) : fullPath dir name = path := by
  rw [fullPath, ← whole]
  exact List.take_of_length_le (Nat.le_sub_one_of_lt short)

theorem event_slot_entry (cache : Cache) (wellFormed : WellFormed cache) (ev : Event) (path : Path)
    (cached : (ev.wd, path) ∈ entries cache) (unignored : has ev.mask IN_IGNORED = false) :
    ∃ slot, eventSlot cache ev = some slot ∧ cache[slot]? = some ⟨ev.wd, path⟩ ∧
      slotPath cache slot = path := by
  rcases event_slot_cases cache ev ((mem_entries _ _ _).mp cached).1 unignored with
    ⟨_, absent⟩ | ⟨slot, label, found, there, here, listed⟩
  · exact absurd (List.mem_map.mpr ⟨_, cached, rfl⟩) absent
  · obtain rfl := entry_unique cache wellFormed ev.wd label path listed cached
    exact ⟨slot, found, there, here⟩

/-- A new cache and other roots, with the watches and the files as they are. -/
theorem sane_cache (world : World System) (sane : Sane world) (cache : Cache) (roots : RootDirPaths)
    (wellFormed : WellFormed cache)
    (cached : ∀ watch ∈ world.state.watches, watch.wd ∈ descriptors cache)
    (fewer : ∀ wd ∈ descriptors cache, wd ∈ descriptors world.cache) :
    Sane { world with cache := cache, roots := roots } :=
  ⟨⟨sane.agrees.ok, wellFormed, cached,
    fun _ _ => Or.inr (Or.inl ⟨true, List.mem_cons_self⟩), fun wd listed =>
      sane.agrees.numbers wd (fewer wd listed), sane.agrees.shaped, sane.agrees.gone⟩,
    sane.files, sane.limit⟩

structure Delisted (path : Path) (roots left : RootDirPaths) : Prop where
  distinct : Distinct left
  listed : ∀ other, some other ∈ left ↔ some other ∈ roots ∧ other ≠ path

structure Forgotten (wd : Int) (before after : World System) : Prop where
  state : after.state = before.state
  sane : Sane after
  slots : ∀ number path, (number, path) ∈ entries after.cache ↔
    (number, path) ∈ entries before.cache ∧ number ≠ wd

structure Respelled (old new : Path) (before after : World System) : Prop where
  roots : after.roots = before.roots
  state : after.state = before.state
  sane : Sane after
  slots : ∀ number path, (number, path) ∈ entries after.cache ↔
    ∃ label, (number, label) ∈ entries before.cache ∧ rewritten old new label = path

section Events
variable (nftw : System → Path → List Path) (world : World System) (sane : Sane world)
  (rest : List Event)

include sane in
theorem created_known (wd : Int) (mask : Mask) (cookie : Nat) (dir name path : Path)
    (created : mask = IN_CREATE ||| IN_ISDIR ∨ mask = IN_MOVED_TO ||| IN_ISDIR)
    (cached : (wd, dir) ∈ entries world.cache) (whole : path = join slash dir name)
    (short : path.length < PATH_MAX) (known : ∃ number, (number, path) ∈ entries world.cache) :
    handleEvents nftw world (⟨wd, mask, cookie, name⟩ :: rest) =
      handleEvents nftw world rest := by
  have unignored : has mask IN_IGNORED = false := by rcases created with rfl | rfl <;> decide
  obtain ⟨slot, found, _, here⟩ := event_slot_entry world.cache sane.agrees.wellFormed
    ⟨wd, mask, cookie, name⟩ dir cached unignored
  have planned := process_created world.cache world.roots _ rest.head? false slot found created
  unfold directoryCreated at planned
  dsimp only at planned
  rw [here, full_path dir name path whole short,
      if_pos ((pathname_in_cache _ _).mpr known)] at planned
  rw [handle_events_plan nftw world _ rest _ planned]
  rfl

include sane in
theorem created_new (visits : Visits nftw) (wd : Int) (mask : Mask) (cookie : Nat)
    (dir name path : Path)
    (created : mask = IN_CREATE ||| IN_ISDIR ∨ mask = IN_MOVED_TO ||| IN_ISDIR)
    (cached : (wd, dir) ∈ entries world.cache) (whole : path = join slash dir name)
    (short : path.length < PATH_MAX)
    (unknown : ∀ number, (number, path) ∉ entries world.cache) :
    ∃ after, handleEvents nftw world (⟨wd, mask, cookie, name⟩ :: rest) =
      handleEvents nftw after rest ∧
      Walked world after fun one => isDirectory world.state.files one = true ∧
        Below slash path one := by
  have unignored : has mask IN_IGNORED = false := by rcases created with rfl | rfl <;> decide
  obtain ⟨slot, found, _, here⟩ := event_slot_entry world.cache sane.agrees.wellFormed
    ⟨wd, mask, cookie, name⟩ dir cached unignored
  have planned := process_created world.cache world.roots _ rest.head? false slot found created
  have absent : ¬ pathnameInCache world.cache path = true := by
    rw [pathname_in_cache]
    rintro ⟨number, known⟩
    exact unknown number known
  unfold directoryCreated at planned
  dsimp only at planned
  rw [here, full_path dir name path whole short, if_neg absent] at planned
  obtain ⟨after, walk, walked⟩ := watch_dir_walked nftw visits world sane path
  refine ⟨after, ?_, walked⟩
  rw [handle_events_plan nftw world _ rest _ planned]
  simp only [perform]
  rw [show watchDir (kernel nftw) { world with cache := world.cache, roots := world.roots } path =
      some after
    from walk]
  rfl

/-- Events about files. -/
theorem file_skipped (wd : Int) (mask : Mask) (cookie : Nat) (dir name : Path)
    (plain : mask = IN_CREATE ∨ mask = IN_MOVED_FROM ∨ mask = IN_MOVED_TO)
    (wellFormed : WellFormed world.cache) (cached : (wd, dir) ∈ entries world.cache) :
    handleEvents nftw world (⟨wd, mask, cookie, name⟩ :: rest) =
      handleEvents nftw world rest := by
  have unignored : has mask IN_IGNORED = false := by rcases plain with rfl | rfl | rfl <;> decide
  obtain ⟨slot, found, _, _⟩ :=
    event_slot_entry world.cache wellFormed ⟨wd, mask, cookie, name⟩ dir cached unignored
  rw [handle_events_plan nftw world _ rest _ (process_skipped world.cache world.roots _
      rest.head? false slot
    found (Or.inr plain))]
  rfl

theorem ignored_skipped (wd : Int) :
    handleEvents nftw world (⟨wd, IN_IGNORED, 0, []⟩ :: rest) =
      handleEvents nftw world rest := by
  have flag : has IN_IGNORED IN_IGNORED ≠ false := by decide
  have slot : eventSlot world.cache ⟨wd, IN_IGNORED, 0, []⟩ = some 0 :=
    if_neg fun looked => flag looked.2
  rw [handle_events_plan nftw world _ rest _
    (process_skipped world.cache world.roots _ rest.head? false 0 slot (Or.inl rfl))]
  rfl

include sane in
/-- The slot of a removed directory is cleared, and a removed root is taken off the list. -/
theorem deleted_handled (distinct : Distinct world.roots) (wd : Int) (path : Path)
    (cached : (wd, path) ∈ entries world.cache)
    (dead : ∀ watch ∈ world.state.watches, watch.wd ≠ wd) :
    handleEvents nftw world (⟨wd, IN_DELETE_SELF, 0, []⟩ :: rest) = none ∧
      some path ∈ world.roots ∧
      (∀ other, some other ∈ world.roots → other = path) ∨
    ∃ after, handleEvents nftw world (⟨wd, IN_DELETE_SELF, 0, []⟩ :: rest) =
      handleEvents nftw after rest ∧
      Forgotten wd world after ∧ Delisted path world.roots after.roots := by
  obtain ⟨slot, found, there, here⟩ := event_slot_entry world.cache sane.agrees.wellFormed
    ⟨wd, IN_DELETE_SELF, 0, []⟩ path cached (by decide : has IN_DELETE_SELF IN_IGNORED = false)
  have valid := ((mem_entries _ _ _).mp cached).1
  have planned := process_deleted world.cache world.roots _ rest.head? false slot found rfl
  have cleared := descriptors_clear world.cache sane.agrees.wellFormed slot wd path valid there
  have forgotten : ∀ left, Forgotten wd world
      { world with cache := markCacheSlotEmpty world.cache slot, roots := left } := fun left =>
    ⟨rfl, sane_cache world sane _ left (clear_well_formed world.cache slot sane.agrees.wellFormed)
      (fun watch living => (cleared watch.wd).mpr ⟨sane.agrees.cached watch living,
        dead watch living⟩)
      (fun number listed => ((cleared number).mp listed).1),
      fun number label => mem_entries_clear world.cache sane.agrees.wellFormed slot
        wd path valid there _⟩
  unfold directoryDeleted at planned
  dsimp only at planned
  rw [here] at planned
  by_cases listed : some path ∈ world.roots
  · rw [if_pos ((is_root_iff _ _).mpr listed)] at planned
    rcases zap_root_cases world.roots distinct path listed with ⟨exits, last⟩ |
      ⟨left, zapped, still, others⟩
    · rw [exits] at planned
      refine Or.inl ⟨?_, listed, last⟩
      rw [handle_events_cons, handle, planned]
      rfl
    · rw [zapped] at planned
      refine Or.inr ⟨_, ?_, forgotten left, still, others⟩
      rw [handle_events_plan nftw world _ rest _ planned]
      rfl
  · rw [if_neg fun root => listed ((is_root_iff _ _).mp root)] at planned
    refine Or.inr ⟨_, ?_, forgotten world.roots, distinct,
      fun other => ⟨fun member => ⟨member, ?_⟩, And.left⟩⟩
    · rw [handle_events_plan nftw world _ rest _ planned]
      rfl
    · rintro rfl
      exact listed member

include sane in
/-- Both halves of a rename inside the trees. -/
theorem pair_handled (wd number : Int) (cookie : Nat) (dir name last label : Path) (old new : Path)
    (source : (wd, dir) ∈ entries world.cache) (target : (number, last) ∈ entries world.cache)
    (from_ : old = join slash dir name) (to_ : new = join slash last label)
    (short : old.length < PATH_MAX) (fits : new.length < PATH_MAX) :
    ∃ after, handleEvents nftw world (⟨wd, IN_MOVED_FROM ||| IN_ISDIR, cookie, name⟩ ::
        ⟨number, IN_MOVED_TO ||| IN_ISDIR, cookie, label⟩ ::
          rest) = handleEvents nftw after rest ∧
      Respelled old new world after := by
  have wellFormed := sane.agrees.wellFormed
  obtain ⟨slot, found, _, here⟩ := event_slot_entry world.cache wellFormed
    ⟨wd, IN_MOVED_FROM ||| IN_ISDIR, cookie, name⟩ dir source
    (by decide : has (IN_MOVED_FROM ||| IN_ISDIR) IN_IGNORED = false)
  obtain ⟨index, looked⟩ := find_watch_of_entry world.cache number last target
  obtain ⟨path, there, listed⟩ :=
    find_watch_entry world.cache number ((mem_entries _ _ _).mp target).1
      index looked
  obtain rfl := entry_unique world.cache wellFormed number path last listed target
  have planned := process_moved world.cache world.roots _
    (some ⟨number, IN_MOVED_TO ||| IN_ISDIR, cookie, label⟩) false slot found rfl
  have flag : has (IN_MOVED_TO ||| IN_ISDIR) IN_MOVED_TO = true := by decide
  have second : findWatchChecked world.cache number = some index := looked
  unfold directoryMoved at planned
  simp only [flag, true_and, if_true, second,
    slot_path_entry world.cache index number path there, here]
    at planned
  refine ⟨{ world with cache := rewriteCachedPaths world.cache dir name path label },
    ?_, rfl, rfl, ?_, ?_⟩
  · rw [handle_events_plan nftw world _ _ _ planned]
    rfl
  · refine sane_cache world sane _ world.roots
      (rewrite_well_formed world.cache _ _ _ _ wellFormed) ?_ ?_
    · rw [rewrite_descriptors]
      exact sane.agrees.cached
    · rw [rewrite_descriptors]
      exact fun _ => id
  · intro one path
    change (one, path) ∈ entries (rewriteCachedPaths _ _ _ _ _) ↔ _
    rw [entries_rewrite, full_path _ _ old from_ short, full_path _ _ new to_ fits, List.mem_map]
    constructor
    · rintro ⟨⟨here, label⟩, cached, same⟩
      cases same
      exact ⟨label, cached, rfl⟩
    · rintro ⟨label, cached, rfl⟩
      exact ⟨(one, label), cached, rfl⟩

include sane in
/-- A directory leaves the trees, with no other half in sight. -/
theorem out_handled (wd : Int) (cookie : Nat) (dir name old : Path)
    (source : (wd, dir) ∈ entries world.cache) (whole : old = join slash dir name)
    (short : old.length < PATH_MAX)
    (alone : ∀ next ∈ rest.head?, has next.mask IN_MOVED_TO = false)
    (live : ∀ number path, (number, path) ∈ entries world.cache → Below slash old path →
      ∃ watch ∈ world.state.watches, watch.wd = number) :
    ∃ after, handleEvents nftw world
      (⟨wd, IN_MOVED_FROM ||| IN_ISDIR, cookie, name⟩ :: rest) =
        handleEvents nftw after rest ∧
          Cleared old (List.range world.cache.length) world after := by
  obtain ⟨slot, found, _, here⟩ := event_slot_entry world.cache sane.agrees.wellFormed
    ⟨wd, IN_MOVED_FROM ||| IN_ISDIR, cookie, name⟩ dir source
    (by decide : has (IN_MOVED_FROM ||| IN_ISDIR) IN_IGNORED = false)
  have planned := process_moved world.cache world.roots _ rest.head? false slot found rfl
  have out : directoryMoved world.cache world.roots slot
      ⟨wd, IN_MOVED_FROM ||| IN_ISDIR, cookie, name⟩ rest.head? false =
        some ⟨world.cache, world.roots, .zapSubtree old, .one⟩ := by
    unfold directoryMoved movedOut
    rw [here, full_path dir name old whole short]
    cases next : rest.head? with
    | none => rfl
    | some other => simp [alone other next]
  obtain ⟨after, zapped, cleared⟩ := zap_subtree_cleared nftw old world sane live
  refine ⟨after, ?_, cleared⟩
  rw [handle_events_plan nftw world _ rest _ (planned.trans out)]
  simp only [perform]
  rw [show zapSubtree (kernel nftw) { world with cache := world.cache, roots := world.roots } old =
    (true, after) from zapped]

include sane in
/-- A moved directory that is no root under the name it has in the cache. -/
theorem self_unlisted (wd : Int) (path : Path) (cached : (wd, path) ∈ entries world.cache)
    (unlisted : some path ∉ world.roots) :
    handleEvents nftw world (⟨wd, IN_MOVE_SELF, 0, []⟩ :: rest) =
      handleEvents nftw world rest := by
  obtain ⟨slot, found, _, here⟩ := event_slot_entry world.cache sane.agrees.wellFormed
    ⟨wd, IN_MOVE_SELF, 0, []⟩ path cached (by decide : has IN_MOVE_SELF IN_IGNORED = false)
  have planned := process_moved_self world.cache world.roots _ rest.head? false slot found rfl
  rw [here, if_neg fun root => unlisted ((is_root_iff _ _).mp root)] at planned
  rw [handle_events_plan nftw world _ rest _ planned]
  rfl

include sane in
/-- The plan for a moved root. -/
theorem self_listed (distinct : Distinct world.roots) (wd : Int) (path : Path)
    (cached : (wd, path) ∈ entries world.cache) (listed : some path ∈ world.roots) :
    handleEvents nftw world (⟨wd, IN_MOVE_SELF, 0, []⟩ :: rest) = none ∧
      (∀ other, some other ∈ world.roots → other = path) ∨
    ∃ left, Delisted path world.roots left ∧
      handleEvents nftw world (⟨wd, IN_MOVE_SELF, 0, []⟩ :: rest) =
        match zapSubtree (kernel nftw) { world with roots := left } path with
        | (true, after) => handleEvents nftw after rest
        | (false, after) => reinitialize (kernel nftw) after := by
  obtain ⟨slot, found, _, here⟩ := event_slot_entry world.cache sane.agrees.wellFormed
    ⟨wd, IN_MOVE_SELF, 0, []⟩ path cached (by decide : has IN_MOVE_SELF IN_IGNORED = false)
  have planned := process_moved_self world.cache world.roots _ rest.head? false slot found rfl
  rw [here, if_pos ((is_root_iff _ _).mpr listed)] at planned
  unfold rootMoved at planned
  dsimp only at planned
  rw [here] at planned
  rcases zap_root_cases world.roots distinct path listed with ⟨exits, last⟩ |
    ⟨left, zapped, still, others⟩
  · rw [exits] at planned
    refine Or.inl ⟨?_, last⟩
    rw [handle_events_cons, handle, planned]
    rfl
  · rw [zapped] at planned
    refine Or.inr ⟨left, ⟨still, others⟩, ?_⟩
    rw [handle_events_plan nftw world _ rest _ planned]
    simp only [perform]
    cases zapSubtree (kernel nftw) { world with cache := world.cache, roots := left } path with
    | mk done after =>
        cases done with
        | true => rfl
        | false =>
            dsimp only
            cases reinitialize (kernel nftw) after with
            | none => rfl
            | some rebuilt => rfl

theorem sane_rebuilt (visits : Visits nftw) (before : World System) (sane : Sane before) :
    ∃ after, reinitialize (kernel nftw) before = some after ∧ Rebuilt before after :=
  reinitialize_rebuilt nftw visits before sane.files sane.limit sane.agrees.ok.late

include sane in
/-- An event for a descriptor that was removed meanwhile. -/
theorem self_unknown (visits : Visits nftw) (wd : Int) (valid : 0 ≤ wd)
    (missing : wd ∉ descriptors world.cache) :
    ∃ after, handleEvents nftw world (⟨wd, IN_MOVE_SELF, 0, []⟩ :: rest) = some after ∧
      Rebuilt world after := by
  obtain ⟨after, done, rebuilt⟩ := sane_rebuilt nftw visits world sane
  refine ⟨after, ?_, rebuilt⟩
  have flag : has IN_MOVE_SELF IN_IGNORED = false := by decide
  rcases event_slot_cases world.cache ⟨wd, IN_MOVE_SELF, 0, []⟩ valid flag with
    ⟨absent, _⟩ | ⟨_, path, _, _, _, cached⟩
  · have planned := process_unknown world.cache world.roots _ rest.head? false absent
    rw [handle_events_plan nftw world _ rest _ planned]
    simp only [perform]
    rw [show reinitialize (kernel nftw) { world with cache := world.cache, roots := world.roots } =
        some after
      from done]
    rfl
  · exact absurd (List.mem_map.mpr ⟨_, cached, rfl⟩) missing

end Events

end Tlpi.HandledEvents

import Mathlib.Data.List.Basic
import Mathlib.Data.BitVec
import Tlpi.WatchCache

/-!
inotify/inotify_dtree.c: the handling of one inotify event. Every branch of
`processNextInotifyEvent` updates the cache and the root list and ends in at
most one of `watchSubtree`, `zapSubtree` and `reinitialize`, so it is written as
a pure function that names this last piece of work. The work makes system calls;
`Kernel` stands for whatever answers them. Logging, -x and -d are left out.
-/

namespace Tlpi.TreeMonitor

open PathName WatchCache

abbrev Mask := BitVec 32

def IN_MOVED_FROM : Mask := 0x00000040#32
def IN_MOVED_TO : Mask := 0x00000080#32
def IN_CREATE : Mask := 0x00000100#32
def IN_DELETE_SELF : Mask := 0x00000400#32
def IN_MOVE_SELF : Mask := 0x00000800#32
def IN_UNMOUNT : Mask := 0x00002000#32
def IN_Q_OVERFLOW : Mask := 0x00004000#32
def IN_IGNORED : Mask := 0x00008000#32
def IN_ONLYDIR : Mask := 0x01000000#32
def IN_ISDIR : Mask := 0x40000000#32

def has (mask flags : Mask) : Bool := mask &&& flags != 0#32

structure Event where
  wd : Int
  mask : Mask
  cookie : Nat
  name : Path
  deriving DecidableEq

inductive Job where
  | nothing
  | watchSubtree (path : Path)
  | zapSubtree (path : Path)
  | reinitialize
  deriving DecidableEq

/-- What the returned length stands for: this event, this event and the next one,
-1 for another read, or INOTIFY_READ_BUF_LEN for the rest of the buffer. -/
inductive Consumed where
  | one
  | pair
  | again
  | discard
  deriving DecidableEq

structure Plan where
  cache : Cache
  roots : RootDirPaths
  job : Job
  consumed : Consumed
  deriving DecidableEq

/-- `evCacheSlot`; the source leaves it unset when it skips the lookup. -/
def eventSlot (cache : Cache) (ev : Event) : Option Nat :=
  if ev.wd ≠ -1 ∧ has ev.mask IN_IGNORED = false then findWatchChecked cache ev.wd else some 0

def slotPath (cache : Cache) (slot : Nat) : Path := (cache.getD slot unusedSlot).path

section Branches
variable (cache : Cache) (roots : RootDirPaths)

def rebuild : Option Plan := some ⟨cache, roots, Job.reinitialize, .discard⟩

def directoryCreated (slot : Nat) (ev : Event) : Option Plan :=
  let path := fullPath (slotPath cache slot) ev.name
  some ⟨cache, roots, if pathnameInCache cache path then .nothing else .watchSubtree path, .one⟩

def directoryDeleted (slot : Nat) : Option Plan :=
  let path := slotPath cache slot
  let clear (roots : RootDirPaths) : Plan :=
    ⟨markCacheSlotEmpty cache slot, roots, .nothing, .one⟩
  if isRootDirPath roots path then (zapRootDirPath roots path).map clear else some (clear roots)

def movedOut (slot : Nat) (ev : Event) : Option Plan :=
  some ⟨cache, roots, .zapSubtree (fullPath (slotPath cache slot) ev.name), .one⟩

def directoryMoved (slot : Nat) (ev : Event) (next : Option Event) (firstTry : Bool) :
    Option Plan :=
  match next with
  | some nextEv =>
      if has nextEv.mask IN_MOVED_TO ∧ nextEv.cookie = ev.cookie then
        match findWatchChecked cache nextEv.wd with
        | none => rebuild cache roots
        | some nextSlot =>
            some ⟨rewriteCachedPaths cache (slotPath cache slot) ev.name (slotPath cache nextSlot)
              nextEv.name, roots, .nothing, .pair⟩
      else movedOut cache roots slot ev
  | none =>
      if firstTry then some ⟨cache, roots, .nothing, .again⟩ else movedOut cache roots slot ev

def rootMoved (slot : Nat) : Option Plan :=
  let path := slotPath cache slot
  (zapRootDirPath roots path).map fun left => ⟨cache, left, .zapSubtree path, .one⟩

/-- No result when the program exits. `next` is the next event in the buffer. -/
def processNextInotifyEvent (ev : Event) (next : Option Event) (firstTry : Bool) : Option Plan :=
  match eventSlot cache ev with
  | none => rebuild cache roots
  | some slot =>
      if has ev.mask IN_ISDIR ∧ has ev.mask (IN_CREATE ||| IN_MOVED_TO) then
        directoryCreated cache roots slot ev
      else if has ev.mask IN_DELETE_SELF then directoryDeleted cache roots slot
      else if ev.mask &&& (IN_MOVED_FROM ||| IN_ISDIR) = IN_MOVED_FROM ||| IN_ISDIR then
        directoryMoved cache roots slot ev next firstTry
      else if has ev.mask IN_Q_OVERFLOW then rebuild cache roots
      else if has ev.mask IN_UNMOUNT then
        some ⟨markCacheSlotEmpty cache slot, roots, .nothing, .one⟩
      else if has ev.mask IN_MOVE_SELF ∧ isRootDirPath roots (slotPath cache slot) then
        rootMoved cache roots slot
      else some ⟨cache, roots, .nothing, .one⟩

/-! The branch that each kind of event takes. -/

section Kinds
variable (ev : Event) (next : Option Event) (firstTry : Bool)

theorem process_unknown (missing : eventSlot cache ev = none) :
    processNextInotifyEvent cache roots ev next firstTry = rebuild cache roots := by
  rw [processNextInotifyEvent, missing]

variable (slot : Nat) (found : eventSlot cache ev = some slot)
include found

theorem process_created
    (mask : ev.mask = IN_CREATE ||| IN_ISDIR ∨ ev.mask = IN_MOVED_TO ||| IN_ISDIR) :
    processNextInotifyEvent cache roots ev next firstTry =
      directoryCreated cache roots slot ev := by
  rw [processNextInotifyEvent, found]
  rcases mask with mask | mask
  · exact if_pos (by rw [mask]; decide)
  · exact if_pos (by rw [mask]; decide)

theorem process_deleted (mask : ev.mask = IN_DELETE_SELF) :
    processNextInotifyEvent cache roots ev next firstTry = directoryDeleted cache roots slot := by
  rw [processNextInotifyEvent, found]
  dsimp only
  rw [mask, if_neg (by decide), if_pos (by decide)]

theorem process_moved (mask : ev.mask = IN_MOVED_FROM ||| IN_ISDIR) :
    processNextInotifyEvent cache roots ev next firstTry =
      directoryMoved cache roots slot ev next firstTry := by
  rw [processNextInotifyEvent, found]
  dsimp only
  rw [mask, if_neg (by decide), if_neg (by decide), if_pos (by decide)]

theorem process_unmounted (mask : ev.mask = IN_UNMOUNT) :
    processNextInotifyEvent cache roots ev next firstTry =
      some ⟨markCacheSlotEmpty cache slot, roots, .nothing, .one⟩ := by
  rw [processNextInotifyEvent, found]
  dsimp only
  rw [mask, if_neg (by decide), if_neg (by decide), if_neg (by decide), if_neg (by decide),
    if_pos (by decide)]

theorem process_moved_self (mask : ev.mask = IN_MOVE_SELF) :
    processNextInotifyEvent cache roots ev next firstTry =
      if isRootDirPath roots (slotPath cache slot) then rootMoved cache roots slot
      else some ⟨cache, roots, .nothing, .one⟩ := by
  rw [processNextInotifyEvent, found]
  dsimp only
  rw [mask, if_neg (by decide), if_neg (by decide), if_neg (by decide), if_neg (by decide),
    if_neg (by decide)]
  have flag : has IN_MOVE_SELF IN_MOVE_SELF = true := by decide
  simp only [flag, true_and]

theorem process_overflowed (mask : ev.mask = IN_Q_OVERFLOW) :
    processNextInotifyEvent cache roots ev next firstTry = rebuild cache roots := by
  rw [processNextInotifyEvent, found]
  dsimp only
  rw [mask, if_neg (by decide), if_neg (by decide), if_neg (by decide), if_pos (by decide)]

/-- Events about files, and IN_IGNORED. -/
theorem process_skipped
    (mask : ev.mask = IN_IGNORED ∨ ev.mask = IN_CREATE ∨ ev.mask = IN_MOVED_FROM ∨
    ev.mask = IN_MOVED_TO) :
    processNextInotifyEvent cache roots ev next firstTry =
      some ⟨cache, roots, .nothing, .one⟩ := by
  have none_fits : ∀ mask, mask = IN_IGNORED ∨ mask = IN_CREATE ∨ mask = IN_MOVED_FROM ∨
      mask = IN_MOVED_TO → has mask IN_ISDIR = false ∧ has mask IN_DELETE_SELF = false ∧
      mask &&& (IN_MOVED_FROM ||| IN_ISDIR) ≠ IN_MOVED_FROM ||| IN_ISDIR ∧
      has mask IN_Q_OVERFLOW = false ∧ has mask IN_UNMOUNT = false ∧
        has mask IN_MOVE_SELF = false := by
    rintro mask (rfl | rfl | rfl | rfl) <;> decide
  obtain ⟨isDir, deleted, moved, overflowed, unmounted, self⟩ := none_fits ev.mask mask
  rw [processNextInotifyEvent, found]
  simp only [isDir, deleted, moved, overflowed, unmounted, self, Bool.false_eq_true,
    false_and, if_false]

end Kinds

end Branches

theorem slot_path_entry (cache : Cache) (slot : Nat) (wd : Int) (path : Path)
    (there : cache[slot]? = some ⟨wd, path⟩) : slotPath cache slot = path := by
  rw [slotPath, List.getD_eq_getElem?_getD, there]
  rfl

/-- The slot of an event, in terms of the entries. -/
theorem event_slot_cases (cache : Cache) (ev : Event) (valid : 0 ≤ ev.wd)
    (unignored : has ev.mask IN_IGNORED = false) :
    eventSlot cache ev = none ∧ ev.wd ∉ (entries cache).map Prod.fst ∨
    ∃ slot path, eventSlot cache ev = some slot ∧ cache[slot]? = some ⟨ev.wd, path⟩ ∧
      slotPath cache slot = path ∧ (ev.wd, path) ∈ entries cache := by
  have looked : eventSlot cache ev = findWatch cache ev.wd :=
    if_pos ⟨by omega, unignored⟩
  rw [looked]
  cases found : findWatch cache ev.wd with
  | none => exact Or.inl ⟨rfl, (find_watch_none cache ev.wd valid).mp found⟩
  | some slot =>
      obtain ⟨path, there, member⟩ := find_watch_entry cache ev.wd valid slot found
      exact Or.inr ⟨slot, path, rfl, there, slot_path_entry cache slot _ path there, member⟩

/-! The work that is left. -/

inductive AddResult where
  | watch (wd : Int)
  | noEntry
  | error
  deriving DecidableEq

/-- `nftw` gives the directories for which it calls `traverseTree`, in order. -/
structure Kernel (State : Type) where
  addWatch : State → Path → Mask → AddResult × State
  rmWatch : State → Int → Bool × State
  nftw : State → Path → List Path
  init : State → State

inductive WatchCall where
  | add (path : Path) (flags : Mask)
  | remove (wd : Int)
  deriving DecidableEq

structure World (State : Type) where
  cache : Cache
  roots : RootDirPaths
  state : State
  calls : List WatchCall

section Work
variable {State : Type} (kernel : Kernel State)

def watchFlags (roots : RootDirPaths) (pathname : Path) : Mask :=
  let flags := IN_CREATE ||| IN_MOVED_FROM ||| IN_MOVED_TO ||| IN_DELETE_SELF
  (if isRootDirPath roots pathname then flags ||| IN_MOVE_SELF else flags) ||| IN_ONLYDIR

/-- No result when the program gives up on an unexpected error. -/
def traverseTree (world : World State) (pathname : Path) : Option (World State) :=
  let flags := watchFlags world.roots pathname
  let answer := kernel.addWatch world.state pathname flags
  let world := { world with state := answer.2, calls := world.calls ++ [.add pathname flags] }
  match answer.1 with
  | .error => none
  | .noEntry => some world
  | .watch wd =>
      if (findWatch world.cache wd).isSome then some world
      else some { world with cache := addWatchToCache world.cache wd pathname }

def watchDir (world : World State) (pathname : Path) : Option (World State) :=
  (kernel.nftw world.state pathname).foldlM (traverseTree kernel) world

/-- One turn of the loop in `zapSubtree`; false when `inotify_rm_watch` failed. -/
def zapSlot (pn : Path) (world : World State) (index : Nat) : Bool × World State :=
  let slot := world.cache.getD index unusedSlot
  if 0 ≤ slot.wd ∧ covers slash pn slot.path then
    let answer := kernel.rmWatch world.state slot.wd
    let world := { world with state := answer.2, calls := world.calls ++ [.remove slot.wd] }
    if answer.1 then (true, { world with cache := markCacheSlotEmpty world.cache index })
    else (false, world)
  else (true, world)

def zapSlots (pn : Path) : List Nat → World State → Bool × World State
  | [], world => (true, world)
  | index :: rest, world =>
      match zapSlot kernel pn world index with
      | (true, world) => zapSlots pn rest world
      | (false, world) => (false, world)

def zapSubtree (world : World State) (path : Path) : Bool × World State :=
  zapSlots kernel path (List.range world.cache.length) world

def reinitialize (world : World State) : Option (World State) :=
  world.roots.reduceOption.foldlM (watchDir kernel)
    { world with cache := [], state := kernel.init world.state }

def perform (plan : Plan) (world : World State) : Option (World State × Consumed) :=
  let world := { world with cache := plan.cache, roots := plan.roots }
  match plan.job with
  | .nothing => some (world, plan.consumed)
  | .watchSubtree path => (watchDir kernel world path).map (·, plan.consumed)
  | .zapSubtree path =>
      match zapSubtree kernel world path with
      | (true, world) => some (world, plan.consumed)
      | (false, world) => ( reinitialize kernel world).map (·, .discard)
  | Job.reinitialize => ( reinitialize kernel world).map (·, .discard)

def handle (world : World State) (ev : Event) (next : Option Event) (firstTry : Bool) :
    Option (World State × Consumed) :=
  (processNextInotifyEvent world.cache world.roots ev next firstTry).bind (perform kernel · world)

end Work

end Tlpi.TreeMonitor

import Mathlib.Data.List.Basic
import Mathlib.Data.List.Nodup
import Tlpi.TreeRace

/-!
The kernel's watches and the cache of inotify_dtree.c under any interleaving. An
event that announces the end of a watch is posted when the watch goes, or the
queue holds an overflow; so a cached descriptor without a watch is excused by an
event that has not been handled yet.
-/

namespace Tlpi.WatchSet

open PathName WatchCache TreeMonitor FileTree TreeRace

/-! What the system does by itself. -/

def Loss (ev : Event) : Prop := ev.mask = IN_DELETE_SELF ∨ ev.mask = IN_UNMOUNT

/-- The masks of events that do not end a watch. -/
def harmless (mask : Mask) : Bool :=
  [IN_CREATE, IN_CREATE ||| IN_ISDIR, IN_MOVED_FROM, IN_MOVED_FROM ||| IN_ISDIR, IN_MOVED_TO,
    IN_MOVED_TO ||| IN_ISDIR, IN_MOVE_SELF].contains mask

inductive Shaped (ev : Event) : Prop where
  | overflow (same : ev = overflow)
  | ignored (same : ev.mask = IN_IGNORED)
  | loss (loss : Loss ev) (positive : 1 ≤ ev.wd)
  | harmless (clean : harmless ev.mask = true) (positive : 1 ≤ ev.wd)

structure SystemOk (sys : System) : Prop where
  descriptors : (sys.watches.map Watch.wd).Nodup
  inodes : (sys.watches.map Watch.ino).Nodup
  numbers : ∀ watch ∈ sys.watches, 1 ≤ watch.wd ∧ watch.wd < sys.nextWd
  positive : 1 ≤ sys.nextWd
  late : ∀ notices ∈ sys.late, ∀ notice ∈ notices, harmless notice.mask = true

/-- The excuse for a descriptor that is no longer watched. -/
def Announced (events : List Event) (wd : Int) : Prop :=
  ∃ ev ∈ events, ev = overflow ∨ ev.wd = wd ∧ Loss ev

structure Evolves (before after : System) : Prop where
  ok : SystemOk after
  nextWd : after.nextWd = before.nextWd
  watches : after.watches.Sublist before.watches
  kept : ∀ ev ∈ before.queue, ev ∈ after.queue
  posted : ∀ ev ∈ after.queue, ev ∈ before.queue ∨ Shaped ev ∧ (Loss ev →
    (∃ watch ∈ before.watches, watch.wd = ev.wd) ∧ ∀ watch ∈ after.watches,
    watch.wd ≠ ev.wd)
  announced : ∀ watch ∈ before.watches,
    watch ∈ after.watches ∨ Announced after.queue watch.wd

theorem evolves_refl (sys : System) (ok : SystemOk sys) : Evolves sys sys :=
  ⟨ok, rfl, List.Sublist.refl _, fun _ => id, fun _ => Or.inl, fun _ => Or.inl⟩

theorem evolves_trans (first second third : System) (one : Evolves first second)
    (two : Evolves second third) : Evolves first third := by
  refine ⟨two.ok, two.nextWd.trans one.nextWd, two.watches.trans one.watches,
    fun ev member => two.kept ev (one.kept ev member), ?_, ?_⟩
  · intro ev member
    rcases two.posted ev member with old | ⟨shaped, lost⟩
    · rcases one.posted ev old with older | ⟨shaped, lost⟩
      · exact Or.inl older
      · refine Or.inr ⟨shaped, fun loss => ⟨(lost loss).1, fun watch inside => ?_⟩⟩
        exact (lost loss).2 watch (two.watches.subset inside)
    · refine Or.inr ⟨shaped, fun loss => ?_⟩
      obtain ⟨⟨watch, inside, same⟩, gone⟩ := lost loss
      exact ⟨⟨watch, one.watches.subset inside, same⟩, gone⟩
  · intro watch member
    rcases one.announced watch member with left | ⟨ev, queued, excuse⟩
    · exact two.announced watch left
    · exact Or.inr ⟨ev, two.kept ev queued, excuse⟩

/-- Either the event is queued or the overflow is. -/
theorem post_queue (sys : System) (ev : Event) :
    (∀ old ∈ sys.queue, old ∈ (post sys ev).queue) ∧
    (∀ new ∈ (post sys ev).queue, new ∈ sys.queue ∨ new = ev ∨ new = overflow) ∧
    (ev ∈ (post sys ev).queue ∨ overflow ∈ (post sys ev).queue) := by
  have appended : ∀ new, new = ev ∨ new = overflow →
      (∀ old ∈ sys.queue, old ∈ sys.queue ++ [new]) ∧
      (∀ one ∈ sys.queue ++ [new], one ∈ sys.queue ∨ one = ev ∨ one = overflow) ∧
      (ev ∈ sys.queue ++ [new] ∨ overflow ∈ sys.queue ++ [new]) := by
    rintro new (rfl | rfl)
    · simp only [List.mem_append, List.mem_singleton]
      tauto
    · simp only [List.mem_append, List.mem_singleton]
      tauto
  unfold post
  cases sys.limit with
  | none => exact appended ev (Or.inl rfl)
  | some limit =>
      dsimp only
      split
      · exact appended ev (Or.inl rfl)
      · split
        · next queued => exact ⟨fun _ => id, fun _ => Or.inl, Or.inr queued⟩
        · exact appended overflow (Or.inr rfl)

theorem post_rest (sys : System) (ev : Event) :
    (post sys ev).watches = sys.watches ∧ (post sys ev).nextWd = sys.nextWd ∧
      (post sys ev).late = sys.late ∧ (post sys ev).files = sys.files ∧
      (post sys ev).limit = sys.limit := by
  unfold post
  cases limited : sys.limit with
  | none => exact ⟨rfl, rfl, rfl, rfl, rfl⟩
  | some limit =>
      dsimp only
      split
      · exact ⟨rfl, rfl, rfl, rfl, rfl⟩
      · split
        · exact ⟨rfl, rfl, rfl, rfl, limited⟩
        · exact ⟨rfl, rfl, rfl, rfl, rfl⟩

/-- Watches may be lost, and no descriptor is given out. -/
theorem system_ok_fewer (before after : System) (ok : SystemOk before)
    (fewer : after.watches.Sublist before.watches) (nextWd : after.nextWd = before.nextWd)
    (late : ∀ notices ∈ after.late, ∀ notice ∈ notices, harmless notice.mask = true) :
    SystemOk after := by
  refine ⟨ok.descriptors.sublist (fewer.map _), ok.inodes.sublist (fewer.map _), ?_, ?_, late⟩
  · intro watch living
    rw [nextWd]
    exact ok.numbers watch (fewer.subset living)
  · rw [nextWd]
    exact ok.positive

theorem post_ok (sys : System) (ev : Event) (ok : SystemOk sys) : SystemOk (post sys ev) := by
  obtain ⟨watches, nextWd, late, _⟩ := post_rest sys ev
  refine system_ok_fewer sys _ ok ?_ nextWd ?_
  · rw [watches]
  · rw [late]
    exact ok.late

theorem post_evolves (sys : System) (ev : Event) (ok : SystemOk sys) (shaped : Shaped ev)
    (quiet : ¬ Loss ev) : Evolves sys (post sys ev) := by
  obtain ⟨watches, nextWd, _⟩ := post_rest sys ev
  obtain ⟨kept, posted, _⟩ := post_queue sys ev
  refine ⟨post_ok sys ev ok, nextWd, by rw [watches], kept, ?_, ?_⟩
  · intro new member
    rcases posted new member with old | rfl | rfl
    · exact Or.inl old
    · exact Or.inr ⟨shaped, fun loss => absurd loss quiet⟩
    · refine Or.inr ⟨.overflow rfl, fun loss => ?_⟩
      rcases loss with bad | bad <;> exact absurd bad (by decide)
  · intro watch member
    exact Or.inl (watches ▸ member)

theorem harmless_no_loss (ev : Event) (clean : harmless ev.mask = true) : ¬ Loss ev := by
  rintro (loss | loss)
  · rw [loss] at clean
    exact absurd clean (by decide)
  · rw [loss] at clean
    exact absurd clean (by decide)

theorem deliver_evolves (sys : System) (notice : Notice) (ok : SystemOk sys)
    (clean : harmless notice.mask = true) : Evolves sys (deliver sys notice) := by
  unfold deliver
  cases found : watchOf sys.watches notice.ino with
  | none => exact evolves_refl sys ok
  | some watch =>
      have member := (watch_of_some _ _ _ found).1
      dsimp only
      split
      · exact evolves_refl sys ok
      · refine post_evolves sys _ ok (.harmless clean (ok.numbers watch member).1) ?_
        exact harmless_no_loss _ clean

theorem drop_evolves (sys : System) (cause : Mask) (ino : Nat) (ok : SystemOk sys)
    (final : cause = IN_DELETE_SELF ∨ cause = IN_UNMOUNT) : Evolves sys (drop cause sys ino) := by
  unfold drop
  cases found : watchOf sys.watches ino with
  | none => exact evolves_refl sys ok
  | some watch =>
      obtain ⟨member, here⟩ := watch_of_some _ _ _ found
      dsimp only
      generalize smaller : ({ sys with watches := sys.watches.filter (·.ino != ino) } : System) =
        rest
      have fewer : rest.watches = sys.watches.filter (·.ino != ino) := by rw [← smaller]
      have sublist : rest.watches.Sublist sys.watches := fewer ▸ List.filter_sublist
      have restOk : SystemOk rest := by
        subst smaller
        exact system_ok_fewer sys _ ok sublist rfl ok.late
      obtain ⟨kept, posted, present⟩ := post_queue rest ⟨watch.wd, cause, 0, []⟩
      obtain ⟨watches, nextWd, _⟩ := post_rest rest ⟨watch.wd, cause, 0, []⟩
      have ignored_no_loss : ¬ Loss ⟨watch.wd, IN_IGNORED, 0, []⟩ := by
        rintro (bad | bad)
        · exact absurd bad (by simp [IN_IGNORED, IN_DELETE_SELF])
        · exact absurd bad (by simp [IN_IGNORED, IN_UNMOUNT])
      have tail : Evolves (post rest ⟨watch.wd, cause, 0, []⟩) _ :=
        post_evolves _ ⟨watch.wd, IN_IGNORED, 0, []⟩ (post_ok rest _ restOk)
          (.ignored rfl) ignored_no_loss
      refine evolves_trans _ _ _ ?_ tail
      -- no other watch has this descriptor, so it is dead once the filter has passed
      have dead : ∀ other ∈ rest.watches, other.wd ≠ watch.wd := by
        intro other inside same
        rw [fewer, List.mem_filter] at inside
        obtain rfl := List.inj_on_of_nodup_map ok.descriptors inside.1 member same
        simp [here] at inside
      refine ⟨post_ok rest _ restOk, ?_, by rw [watches]; exact sublist, ?_, ?_, ?_⟩
      · rw [nextWd, ← smaller]
      · intro ev queued
        exact kept ev (by rw [← smaller]; exact queued)
      · intro ev queued
        rw [watches]
        rcases posted ev queued with old | rfl | rfl
        · exact Or.inl (by rw [← smaller] at old; exact old)
        · exact Or.inr ⟨.loss final (ok.numbers watch member).1,
            fun _ => ⟨⟨watch, member, rfl⟩, dead⟩⟩
        · refine Or.inr ⟨.overflow rfl, fun loss => ?_⟩
          rcases loss with bad | bad <;> exact absurd bad (by decide)
      · intro other inside
        rw [watches]
        by_cases same : other.ino = ino
        · obtain rfl := List.inj_on_of_nodup_map ok.inodes inside member (same.trans here.symm)
          refine Or.inr ?_
          rcases present with queued | full
          · exact ⟨_, queued, Or.inr ⟨rfl, final⟩⟩
          · exact ⟨_, full, Or.inl rfl⟩
        · exact Or.inl (by rw [fewer, List.mem_filter]; exact ⟨inside, by simp [same]⟩)

theorem fold_evolves {Item : Type} (move : System → Item → System)
    (items : List Item) (sys : System) (ok : SystemOk sys)
    (each : ∀ item ∈ items, ∀ sys, SystemOk sys → Evolves sys (move sys item)) :
    Evolves sys (items.foldl move sys) := by
  induction items generalizing sys with
  | nil => exact evolves_refl sys ok
  | cons item rest ih =>
      have first := each item List.mem_cons_self sys ok
      exact evolves_trans _ _ _ first
        (ih _ first.ok fun other member => each other (List.mem_cons_of_mem _ member))

/-- The change of the files alone, before anything is posted. -/
structure Silent (sys : System) (effect : Effect) : Prop where
  watches : effect.system.watches = sys.watches
  nextWd : effect.system.nextWd = sys.nextWd
  queue : effect.system.queue = sys.queue
  late : effect.system.late = sys.late
  notices : ∀ notice ∈ effect.notices, harmless notice.mask = true
  final : effect.cause = IN_DELETE_SELF ∨ effect.cause = IN_UNMOUNT

theorem entry_notice_mask (files : List File) (path : Path) (mask : Mask) (cookie : Nat)
    (notice : Notice) (member : notice ∈ entryNotice files path mask cookie) :
    notice.mask = mask := by
  unfold entryNotice at member
  split at member
  · cases member
  · rw [Option.mem_toList] at member
    obtain ⟨_, _, rfl⟩ := Option.map_eq_some_iff.mp member
    rfl

theorem effect_silent (sys : System) (op : Op) (effect : Effect)
    (made : FileTree.effect sys op = some effect) : Silent sys effect := by
  cases op with
  | create path isDir =>
      simp only [FileTree.effect, create] at made
      split at made
      · cases made
        refine ⟨rfl, rfl, rfl, rfl, fun notice member => ?_, Or.inl rfl⟩
        rw [entry_notice_mask _ _ _ _ notice member]
        cases isDir <;> decide
      · cases made
  | remove path isDir =>
      simp only [FileTree.effect, remove] at made
      split at made
      · cases made
      · split at made
        · cases made
          exact ⟨rfl, rfl, rfl, rfl, by simp, Or.inl rfl⟩
        · cases made
  | rename old new =>
      simp only [FileTree.effect, rename] at made
      split at made
      · cases made
      · next file _ =>
          split at made
          · cases made
            refine ⟨rfl, rfl, rfl, rfl, fun notice member => ?_, Or.inl rfl⟩
            rcases List.mem_append.mp member with halves | self
            · rcases List.mem_append.mp halves with from_ | to_
              · rw [entry_notice_mask _ _ _ _ notice from_]
                cases file.isDir <;> decide
              · rw [entry_notice_mask _ _ _ _ notice to_]
                cases file.isDir <;> decide
            · obtain rfl := List.mem_singleton.mp self
              exact (by decide : harmless IN_MOVE_SELF = true)
          · cases made
  | unmount path =>
      simp only [FileTree.effect, unmount] at made
      split at made
      · cases made
      · split at made
        · cases made
          exact ⟨rfl, rfl, rfl, rfl, by simp, Or.inr rfl⟩
        · cases made

theorem evolves_change (sys changed after : System) (ok : SystemOk sys)
    (watches : changed.watches = sys.watches) (nextWd : changed.nextWd = sys.nextWd)
    (queue : changed.queue = sys.queue)
    (late : ∀ notices ∈ changed.late, ∀ notice ∈ notices, harmless notice.mask = true)
    (evolves : SystemOk changed → Evolves changed after) : Evolves sys after := by
  have changedOk : SystemOk changed := by
    refine system_ok_fewer sys changed ok ?_ nextWd late
    rw [watches]
  refine evolves_trans _ _ _ ⟨changedOk, nextWd, by rw [watches], ?_, ?_, ?_⟩
    (evolves changedOk)
  · intro ev member
    exact queue ▸ member
  · intro ev member
    exact Or.inl (queue ▸ member)
  · intro watch member
    exact Or.inl (watches ▸ member)

theorem happen_evolves (sys : System) (effect : Effect) (ok : SystemOk sys)
    (silent : Silent sys effect) : Evolves sys (happen effect) := by
  refine evolves_change sys effect.system _ ok silent.watches silent.nextWd silent.queue
    (silent.late ▸ ok.late) fun changedOk => ?_
  have noticed :=
    fold_evolves deliver effect.notices effect.system changedOk fun notice member sys ok =>
      deliver_evolves sys notice ok (silent.notices notice member)
  exact evolves_trans _ _ _ noticed (fold_evolves (drop effect.cause) effect.vanished _ noticed.ok
    fun ino _ sys ok => drop_evolves sys effect.cause ino ok silent.final)

theorem begin_evolves (sys : System) (effect : Effect) (ok : SystemOk sys)
    (silent : Silent sys effect) : Evolves sys (begin effect) := by
  refine evolves_change sys { effect.system with
    late := effect.system.late ++ [effect.notices] } _ ok
    silent.watches silent.nextWd silent.queue ?_ fun changedOk => ?_
  · intro notices member
    rcases List.mem_append.mp member with old | new
    · exact ok.late notices (silent.late ▸ old)
    · obtain rfl := List.mem_singleton.mp new
      exact silent.notices
  · exact fold_evolves (drop effect.cause) effect.vanished _ changedOk
      fun ino _ sys ok => drop_evolves sys effect.cause ino ok silent.final

theorem deliver_late_evolves (sys : System) (index : Nat) (ok : SystemOk sys) :
    Evolves sys (deliverLate sys index) := by
  unfold deliverLate
  split
  · next notice rest found =>
      have listed : notice :: rest ∈ sys.late := List.mem_of_getElem? found
      refine evolves_change sys { sys with late := sys.late.set index rest } _ ok rfl rfl rfl ?_
        fun changedOk => deliver_evolves _ notice changedOk
          (ok.late _ listed notice List.mem_cons_self)
      intro notices member
      rcases List.mem_or_eq_of_mem_set member with old | rfl
      · exact ok.late notices old
      · exact fun other inside => ok.late _ listed other (List.mem_cons_of_mem _ inside)
  · exact evolves_refl sys ok

/-! The monitor. -/

def Excused (state : State) (wd : Int) : Prop :=
  (∃ counted, Task.reinit counted ∈ state.tasks) ∨ Announced (pending state) wd

def descriptors (cache : Cache) : List Int := (entries cache).map Prod.fst

structure Agrees (state : State) : Prop where
  ok : SystemOk state.sys
  wellFormed : WellFormed state.world.cache
  cached : ∀ watch ∈ state.sys.watches, watch.wd ∈ descriptors state.world.cache
  known : ∀ wd ∈ descriptors state.world.cache,
    (∃ watch ∈ state.sys.watches, watch.wd = wd) ∨ Excused state wd
  numbers : ∀ wd ∈ descriptors state.world.cache, 1 ≤ wd ∧ wd < state.sys.nextWd
  shaped : ∀ ev ∈ pending state, Shaped ev
  gone : ∀ ev ∈ pending state, Loss ev → ev.wd < state.sys.nextWd ∧
    ∀ watch ∈ state.sys.watches, watch.wd ≠ ev.wd

/-- What other processes do leaves the cache alone and excuses every watch that goes. -/
theorem agrees_evolves (state : State) (sys : System) (agrees : Agrees state)
    (evolves : Evolves state.sys sys) : Agrees (state.withSys sys) := by
  have more : ∀ ev ∈ pending state, ev ∈ pending (state.withSys sys) := by
    intro ev member
    rcases List.mem_append.mp member with buffered | queued
    · exact List.mem_append_left _ buffered
    · exact List.mem_append_right _ (evolves.kept ev queued)
  have origin : ∀ ev ∈ pending (state.withSys sys),
    ev ∈ pending state ∨ Shaped ev ∧ (Loss ev →
      (∃ watch ∈ state.sys.watches, watch.wd = ev.wd) ∧ ∀ watch ∈ sys.watches,
      watch.wd ≠ ev.wd) := by
    intro ev member
    rcases List.mem_append.mp member with buffered | queued
    · exact Or.inl (List.mem_append_left _ buffered)
    · exact (evolves.posted ev queued).imp_left (List.mem_append_right _)
  refine ⟨evolves.ok, agrees.wellFormed,
    fun watch member => agrees.cached watch (evolves.watches.subset member), ?_, ?_, ?_, ?_⟩
  · intro wd member
    have carried : Announced (pending state) wd → Announced (pending (state.withSys sys)) wd := by
      rintro ⟨ev, inside, excuse⟩
      exact ⟨ev, more ev inside, excuse⟩
    rcases agrees.known wd member with ⟨watch, inside, rfl⟩ | excused
    · rcases evolves.announced watch inside with left | ⟨ev, queued, excuse⟩
      · exact Or.inl ⟨watch, left, rfl⟩
      · exact Or.inr (Or.inr ⟨ev, List.mem_append_right _ queued, excuse⟩)
    · exact Or.inr (excused.imp_right carried)
  · intro wd member
    have range := agrees.numbers wd member
    change 1 ≤ wd ∧ wd < sys.nextWd
    rw [evolves.nextWd]
    exact range
  · intro ev member
    rcases origin ev member with old | ⟨shaped, _⟩
    · exact agrees.shaped ev old
    · exact shaped
  · intro ev member loss
    change ev.wd < sys.nextWd ∧ ∀ watch ∈ sys.watches, watch.wd ≠ ev.wd
    rw [evolves.nextWd]
    rcases origin ev member with old | ⟨_, lost⟩
    · obtain ⟨below, absent⟩ := agrees.gone ev old loss
      exact ⟨below, fun watch inside => absent watch (evolves.watches.subset inside)⟩
    · obtain ⟨⟨watch, inside, same⟩, absent⟩ := lost loss
      exact ⟨same ▸ (agrees.ok.numbers watch inside).2, absent⟩

theorem watched_iff (watches : List Watch) (wd : Int) :
    (∃ watch ∈ watches, watch.wd = wd) ↔ wd ∈ watches.map Watch.wd := by
  rw [List.mem_map]

/-- Steps that change neither the kernel's nor the cached descriptors. -/
theorem agrees_same (before after : State) (agrees : Agrees before)
    (sys : SystemOk after.sys ∧ after.sys.watches.map Watch.wd =
      before.sys.watches.map Watch.wd ∧
      after.sys.nextWd = before.sys.nextWd)
    (wellFormed : WellFormed after.world.cache)
    (same : descriptors after.world.cache = descriptors before.world.cache)
    (fewer : ∀ ev ∈ pending after, ev ∈ pending before)
    (excused : ∀ wd, Excused before wd → Excused after wd) : Agrees after := by
  obtain ⟨ok, watches, nextWd⟩ := sys
  have origin : ∀ watch ∈ after.sys.watches, ∃ old ∈ before.sys.watches,
      old.wd = watch.wd := by
    intro watch member
    rw [watched_iff, ← watches]
    exact List.mem_map.mpr ⟨watch, member, rfl⟩
  refine ⟨ok, wellFormed, ?_, ?_, ?_, fun ev member => agrees.shaped ev (fewer ev member), ?_⟩
  · intro watch member
    obtain ⟨old, inside, wds⟩ := origin watch member
    rw [same, ← wds]
    exact agrees.cached old inside
  · intro wd member
    rw [same] at member
    rw [watched_iff, watches, ← watched_iff]
    exact (agrees.known wd member).imp_right (excused wd)
  · rw [nextWd, same]
    exact agrees.numbers
  · intro ev member loss
    obtain ⟨below, dead⟩ := agrees.gone ev (fewer ev member) loss
    rw [nextWd]
    refine ⟨below, fun watch inside => ?_⟩
    obtain ⟨old, earlier, wds⟩ := origin watch inside
    exact wds ▸ dead old earlier

theorem agrees_tasks (state : State) (tasks : List Task) (agrees : Agrees state)
    (kept : ∀ counted, Task.reinit counted ∈ state.tasks → ∃ counted,
      Task.reinit counted ∈ tasks) :
    Agrees { state with tasks := tasks } :=
  agrees_same state _ agrees ⟨agrees.ok, rfl, rfl⟩ agrees.wellFormed rfl (fun _ => id)
    fun _ excused =>
    excused.imp_left fun ⟨counted, member⟩ => kept counted member

theorem read_agrees (before after : State) (amount : Nat) (agrees : Agrees before)
    (taken : TreeRace.read before amount = some after) : Agrees after := by
  unfold TreeRace.read at taken
  split at taken
  · next ready =>
      cases taken
      have empty : before.buffer = [] := by
        have quiet := ready.1
        unfold idle at quiet
        simp only [Bool.and_eq_true, List.isEmpty_iff] at quiet
        exact quiet.1.1.2
      have same : ∀ ev, ev ∈ before.sys.queue.take (amount + 1) ++
        before.sys.queue.drop (amount + 1) ↔
          ev ∈ pending before := by
        intro ev
        rw [List.take_append_drop, pending, empty, List.nil_append]
      refine agrees_same before _ agrees
        ⟨system_ok_fewer before.sys _ agrees.ok (.refl _) rfl agrees.ok.late, rfl,
          rfl⟩ agrees.wellFormed rfl
        (fun ev => (same ev).mp) fun wd excused => ?_
      exact excused.imp_right fun ⟨ev, member, excuse⟩ => ⟨ev, (same ev).mpr member, excuse⟩
  · cases taken

theorem reread_agrees (before after : State) (amount : Nat) (agrees : Agrees before)
    (taken : reread before amount = some after) : Agrees after := by
  unfold reread at taken
  split at taken
  · cases taken
    have same : ∀ ev, ev ∈ before.buffer ++ before.sys.queue.take (amount + 1) ++
        before.sys.queue.drop (amount + 1) ↔ ev ∈ pending before := by
      intro ev
      rw [List.append_assoc, List.take_append_drop, pending]
    refine agrees_same before _ agrees
      ⟨system_ok_fewer before.sys _ agrees.ok (.refl _) rfl agrees.ok.late, rfl,
        rfl⟩ agrees.wellFormed rfl
      (fun ev => (same ev).mp) fun wd excused => ?_
    exact excused.imp_right fun ⟨ev, member, excuse⟩ => ⟨ev, (same ev).mpr member, excuse⟩
  · cases taken

/-- A plan that keeps the cached descriptors. -/
structure Keeps (cache : Cache) (next : Option Event) (plan : Plan) : Prop where
  cache : plan.cache = cache ∨ ∃ oldDir oldName newDir newName,
    plan.cache = rewriteCachedPaths cache oldDir oldName newDir newName
  discard : plan.consumed = .discard → plan.job = Job.reinitialize
  pair : plan.consumed = .pair → ∃ nextEv,
    next = some nextEv ∧ has nextEv.mask IN_MOVED_TO = true

theorem keeps_unchanged (cache : Cache) (roots : RootDirPaths) (next : Option Event) (job : Job)
    (consumed : Consumed) (kind : consumed = .one ∨ consumed = .again ∨
      consumed = .discard ∧ job = Job.reinitialize) : Keeps cache next ⟨cache, roots,
      job, consumed⟩ := by
  refine ⟨Or.inl rfl, ?_, ?_⟩
  · rintro rfl
    rcases kind with bad | bad | ⟨_, again⟩
    · cases bad
    · cases bad
    · exact again
  · rintro rfl
    rcases kind with bad | bad | ⟨bad, _⟩ <;> cases bad

theorem moved_keeps (cache : Cache) (roots : RootDirPaths) (slot : Nat) (ev : Event)
    (next : Option Event) (firstTry : Bool) (plan : Plan)
    (planned : directoryMoved cache roots slot ev next firstTry = some plan) :
    Keeps cache next plan := by
  unfold directoryMoved movedOut rebuild at planned
  split at planned
  · next nextEv =>
      split at planned
      · next paired =>
          split at planned
          · cases planned
            exact keeps_unchanged _ _ _ _ _ (Or.inr (Or.inr ⟨rfl, rfl⟩))
          · cases planned
            exact ⟨Or.inr ⟨_, _, _, _, rfl⟩, Consumed.noConfusion,
              fun _ => ⟨nextEv, rfl, paired.1⟩⟩
      · cases planned
        exact keeps_unchanged _ _ _ _ _ (Or.inl rfl)
  · split at planned
    · cases planned
      exact keeps_unchanged _ _ _ _ _ (Or.inr (Or.inl rfl))
    · cases planned
      exact keeps_unchanged _ _ _ _ _ (Or.inl rfl)

theorem harmless_keeps (cache : Cache) (roots : RootDirPaths) (ev : Event) (next : Option Event)
    (firstTry : Bool) (plan : Plan) (clean : harmless ev.mask = true) (positive : 1 ≤ ev.wd)
    (planned : processNextInotifyEvent cache roots ev next firstTry = some plan) :
    Keeps cache next plan := by
  simp only [harmless, List.contains_iff_mem, List.mem_cons, List.not_mem_nil, or_false] at clean
  have unignored : has ev.mask IN_IGNORED = false := by
    rcases clean with mask | mask | mask | mask | mask | mask | mask <;> rw [mask] <;> decide
  rcases event_slot_cases cache ev (by omega) unignored with ⟨missing, _⟩ |
    ⟨slot, path, found, _⟩
  · rw [process_unknown cache roots ev next firstTry missing] at planned
    cases planned
    exact keeps_unchanged _ _ _ _ _ (Or.inr (Or.inr ⟨rfl, rfl⟩))
  have skipped : ∀ plan, some ⟨cache, roots, .nothing, .one⟩ = some plan →
      Keeps cache next plan := by
    rintro plan ⟨⟩
    exact keeps_unchanged _ _ _ _ _ (Or.inl rfl)
  have created : ∀ plan, directoryCreated cache roots slot ev = some plan →
      Keeps cache next plan := by
    rintro plan ⟨⟩
    exact keeps_unchanged _ _ _ _ _ (Or.inl rfl)
  rcases clean with mask | mask | mask | mask | mask | mask | mask
  · rw [process_skipped cache roots ev next firstTry slot found (by simp [mask])] at planned
    exact skipped plan planned
  · rw [process_created cache roots ev next firstTry slot found (Or.inl mask)] at planned
    exact created plan planned
  · rw [process_skipped cache roots ev next firstTry slot found (by simp [mask])] at planned
    exact skipped plan planned
  · rw [process_moved cache roots ev next firstTry slot found mask] at planned
    exact moved_keeps cache roots slot ev next firstTry plan planned
  · rw [process_skipped cache roots ev next firstTry slot found (by simp [mask])] at planned
    exact skipped plan planned
  · rw [process_created cache roots ev next firstTry slot found (Or.inr mask)] at planned
    exact created plan planned
  · rw [process_moved_self cache roots ev next firstTry slot found mask] at planned
    split at planned
    · obtain ⟨_, _, rfl⟩ := Option.map_eq_some_iff.mp planned
      exact keeps_unchanged _ _ _ _ _ (Or.inl rfl)
    · exact skipped plan planned

/-- The event that ends a watch clears its slot, unless it makes the cache be rebuilt. -/
theorem loss_plan (cache : Cache) (roots : RootDirPaths) (ev : Event) (next : Option Event)
    (firstTry : Bool) (plan : Plan) (loss : Loss ev) (positive : 1 ≤ ev.wd)
    (planned : processNextInotifyEvent cache roots ev next firstTry = some plan) :
    plan.cache = cache ∧ plan.job = Job.reinitialize ∧ plan.consumed = .discard ∨
    ∃ slot path, cache[slot]? = some ⟨ev.wd, path⟩ ∧
      plan.cache = markCacheSlotEmpty cache slot ∧
      plan.job = .nothing ∧ plan.consumed = .one := by
  have unignored : has ev.mask IN_IGNORED = false := by
    rcases loss with mask | mask <;> rw [mask] <;> decide
  rcases event_slot_cases cache ev (by omega) unignored with ⟨missing, _⟩ |
    ⟨slot, path, found, there, _⟩
  · rw [process_unknown cache roots ev next firstTry missing] at planned
    cases planned
    exact Or.inl ⟨rfl, rfl, rfl⟩
  refine Or.inr ⟨slot, path, there, ?_⟩
  rcases loss with mask | mask
  · rw [process_deleted cache roots ev next firstTry slot found mask] at planned
    unfold directoryDeleted at planned
    dsimp only at planned
    split at planned
    · obtain ⟨_, _, rfl⟩ := Option.map_eq_some_iff.mp planned
      exact ⟨rfl, rfl, rfl⟩
    · cases planned
      exact ⟨rfl, rfl, rfl⟩
  · rw [process_unmounted cache roots ev next firstTry slot found mask] at planned
    cases planned
    exact ⟨rfl, rfl, rfl⟩

theorem rewrite_descriptors (cache : Cache) (oldDir oldName newDir newName : Path) :
    descriptors (rewriteCachedPaths cache oldDir oldName newDir newName) = descriptors cache := by
  unfold descriptors
  rw [entries_rewrite, List.map_map]
  rfl

theorem keeps_descriptors (cache : Cache) (next : Option Event) (plan : Plan)
    (keeps : Keeps cache next plan) (wellFormed : WellFormed cache) :
    WellFormed plan.cache ∧ descriptors plan.cache = descriptors cache := by
  rcases keeps.cache with same | ⟨oldDir, oldName, newDir, newName, same⟩
  · rw [same]
    exact ⟨wellFormed, rfl⟩
  · rw [same]
    exact ⟨rewrite_well_formed cache _ _ _ _ wellFormed, rewrite_descriptors cache _ _ _ _⟩

theorem descriptors_clear (cache : Cache) (wellFormed : WellFormed cache) (slot : Nat) (wd : Int)
    (path : Path) (valid : 0 ≤ wd) (there : cache[slot]? = some ⟨wd, path⟩) (other : Int) :
    other ∈ descriptors (markCacheSlotEmpty cache slot) ↔
      other ∈ descriptors cache ∧ other ≠ wd := by
  unfold descriptors
  simp only [List.mem_map]
  constructor
  · rintro ⟨entry, member, rfl⟩
    obtain ⟨inside, different⟩ :=
      (mem_entries_clear cache wellFormed slot wd path valid there entry).mp member
    exact ⟨⟨entry, inside, rfl⟩, different⟩
  · rintro ⟨⟨entry, inside, rfl⟩, different⟩
    exact ⟨entry, (mem_entries_clear cache wellFormed slot wd path valid there entry).mpr
      ⟨inside, different⟩, rfl⟩

theorem moved_to_quiet (ev : Event) (shaped : Shaped ev) (moved : has ev.mask IN_MOVED_TO = true) :
    ev ≠ overflow ∧ ¬ Loss ev := by
  refine ⟨?_, ?_⟩
  · rintro rfl
    exact absurd moved (by decide)
  · rintro (mask | mask)
    · rw [mask] at moved
      exact absurd moved (by decide)
    · rw [mask] at moved
      exact absurd moved (by decide)

section Process
variable (state : State) (ev : Event) (rest : List Event) (buffer : state.buffer = ev :: rest)
include buffer

theorem head_pending : ev ∈ pending state := by
  rw [pending, buffer]
  exact List.mem_append_left _ List.mem_cons_self

theorem rest_pending (plan : Plan) (other : Event)
    (member : other ∈ bufferAfter ev rest plan.consumed ++ state.sys.queue) :
    other ∈ pending state := by
  rw [pending, buffer]
  rcases List.mem_append.mp member with buffered | queued
  · refine List.mem_append_left _ ?_
    cases consumed : plan.consumed with
    | one =>
        rw [consumed] at buffered
        exact List.mem_cons_of_mem _ buffered
    | pair =>
        rw [consumed] at buffered
        exact List.mem_cons_of_mem _ (List.mem_of_mem_tail buffered)
    | again =>
        rw [consumed] at buffered
        exact buffered
    | discard =>
        rw [consumed] at buffered
        cases buffered
  · exact List.mem_append_right _ queued

variable (still : state.tasks = []) (agrees : Agrees state)
include still agrees

/-- No excuse is lost with a harmless event, nor with the other half of a rename. -/
theorem excuse_kept (plan : Plan) (keeps : Keeps state.world.cache rest.head? plan)
    (quiet : ev ≠ overflow ∧ ¬ Loss ev) (wd : Int) (excused : Excused state wd) :
    (∃ counted, Task.reinit counted ∈ tasksOf plan.job) ∨
      Announced (bufferAfter ev rest plan.consumed ++ state.sys.queue) wd := by
  rcases excused with ⟨counted, member⟩ | ⟨excuse, member, reason⟩
  · rw [still] at member
    cases member
  · by_cases dropped : plan.consumed = .discard
    · rw [keeps.discard dropped]
      exact Or.inl ⟨true, List.mem_cons_self⟩
    have other : excuse ≠ ev := by
      rintro rfl
      exact reason.elim quiet.1 fun both => quiet.2 both.2
    refine Or.inr ⟨excuse, ?_, reason⟩
    rw [pending, buffer] at member
    rcases List.mem_append.mp member with buffered | queued
    · have behind : excuse ∈ rest := (List.mem_cons.mp buffered).resolve_left other
      refine List.mem_append_left _ ?_
      cases consumed : plan.consumed with
      | one => exact behind
      | again => exact List.mem_cons_of_mem _ behind
      | discard => exact absurd consumed dropped
      | pair =>
          obtain ⟨nextEv, second, moved⟩ := keeps.pair consumed
          cases rest with
          | nil => cases second
          | cons head tail =>
              obtain rfl := Option.some.inj second
              refine (List.mem_cons.mp behind).resolve_left ?_
              rintro rfl
              have shaped := agrees.shaped excuse (by
                rw [pending, buffer]
                simp)
              obtain ⟨whole, one⟩ := moved_to_quiet excuse shaped moved
              exact reason.elim whole fun both => one both.2
    · exact List.mem_append_right _ queued

theorem keeps_agrees (plan : Plan) (keeps : Keeps state.world.cache rest.head? plan)
    (quiet : ev ≠ overflow ∧ ¬ Loss ev) : Agrees (follow state ev rest plan) := by
  obtain ⟨wellFormed, same⟩ := keeps_descriptors _ _ plan keeps agrees.wellFormed
  exact agrees_same state _ agrees ⟨agrees.ok, rfl, rfl⟩ wellFormed same
    (rest_pending state ev rest buffer plan)
    (excuse_kept state ev rest buffer still agrees plan keeps quiet)

omit still in
theorem rebuild_agrees (plan : Plan) (cache : plan.cache = state.world.cache)
    (job : plan.job = Job.reinitialize) : Agrees (follow state ev rest plan) := by
  refine agrees_same state _ agrees ⟨agrees.ok, rfl, rfl⟩ ?_ (congrArg descriptors cache)
    (rest_pending state ev rest buffer plan) fun _ _ => Or.inl ⟨true, ?_⟩
  · change WellFormed plan.cache
    rw [cache]
    exact agrees.wellFormed
  · change Task.reinit true ∈ tasksOf plan.job
    rw [job]
    exact List.mem_cons_self

/-- The last event of a descriptor takes the descriptor out of the cache. -/
theorem cleared_agrees (plan : Plan) (slot : Nat) (path : Path) (loss : Loss ev)
    (positive : 1 ≤ ev.wd) (there : state.world.cache[slot]? = some ⟨ev.wd, path⟩)
    (cache : plan.cache = markCacheSlotEmpty state.world.cache slot)
    (consumed : plan.consumed = .one) : Agrees (follow state ev rest plan) := by
  have cleared : ∀ wd, wd ∈ descriptors plan.cache ↔
      wd ∈ descriptors state.world.cache ∧ wd ≠ ev.wd := by
    intro wd
    rw [cache]
    exact descriptors_clear _ agrees.wellFormed slot ev.wd path (by omega) there wd
  have fewer := rest_pending state ev rest buffer plan
  obtain ⟨_, dead⟩ := agrees.gone ev (head_pending state ev rest buffer) loss
  refine ⟨agrees.ok, ?_, ?_, ?_, ?_, fun other member => agrees.shaped other (fewer other member),
    fun other member => agrees.gone other (fewer other member)⟩
  · change WellFormed plan.cache
    rw [cache]
    exact clear_well_formed _ slot agrees.wellFormed
  · intro watch member
    exact (cleared watch.wd).mpr ⟨agrees.cached watch member, dead watch member⟩
  · intro wd member
    obtain ⟨inside, different⟩ := (cleared wd).mp member
    refine (agrees.known wd inside).imp_right ?_
    rintro (⟨counted, bad⟩ | ⟨excuse, waiting, reason⟩)
    · rw [still] at bad
      cases bad
    · refine Or.inr ⟨excuse, ?_, reason⟩
      have other : excuse ≠ ev := by
        rintro rfl
        rcases reason with rfl | ⟨same, _⟩
        · exact absurd positive (by decide)
        · exact different same.symm
      rw [pending, buffer] at waiting
      change excuse ∈ bufferAfter ev rest plan.consumed ++ _
      rw [consumed]
      rcases List.mem_append.mp waiting with buffered | queued
      · exact List.mem_append_left _ ((List.mem_cons.mp buffered).resolve_left other)
      · exact List.mem_append_right _ queued
  · intro wd member
    exact agrees.numbers wd ((cleared wd).mp member).1

end Process

theorem process_agrees (before after : State) (agrees : Agrees before)
    (taken : process before = some after) (running : after.exited = false) : Agrees after := by
  obtain ⟨ev, rest, still, buffer, _, outcome, planned, rfl⟩ := process_cases before after taken
  cases outcome with
  | none => cases running
  | some plan =>
      change Agrees (follow before ev rest plan)
      cases agrees.shaped ev (head_pending before ev rest buffer) with
      | overflow same =>
          subst same
          rw [process_overflowed _ _ overflow _ _ 0 rfl rfl] at planned
          cases planned
          exact rebuild_agrees before _ rest buffer agrees _ rfl rfl
      | ignored mask =>
          have slot : eventSlot before.world.cache ev = some 0 :=
            if_neg fun both => absurd both.2 (by rw [mask]; decide)
          rw [process_skipped _ _ ev _ _ 0 slot (Or.inl mask)] at planned
          cases planned
          refine keeps_agrees before ev rest buffer still agrees _
            (keeps_unchanged _ _ _ _ _ (Or.inl rfl)) ⟨?_, ?_⟩
          · rintro rfl
            exact absurd mask (by decide)
          · rintro (bad | bad) <;> rw [mask] at bad <;> exact absurd bad (by decide)
      | loss loss positive =>
          rcases loss_plan _ _ ev _ _ plan loss positive planned with
            ⟨cache, job, _⟩ | ⟨slot, path, there, cache, _, consumed⟩
          · exact rebuild_agrees before ev rest buffer agrees plan cache job
          · exact cleared_agrees before ev rest buffer still agrees plan slot path loss positive
              there cache consumed
      | harmless clean positive =>
          refine keeps_agrees before ev rest buffer still agrees plan
            (harmless_keeps _ _ ev _ _ plan clean positive planned) ⟨?_,
              harmless_no_loss ev clean⟩
          rintro rfl
          exact absurd positive (by decide)

/-- A directory that was watched already keeps its descriptor; any other gets a
new one, which no slot has. -/
theorem traverse_agrees (refuse : Bool) (state : State) (path : Path) (world : World System)
    (agrees : Agrees state) (walked : traverseTree (kernel refuse) state.world path = some world) :
    Agrees { state with world := world } := by
  have cases := traverse_cases (kernel refuse) rfl state.world world path walked
  obtain ⟨cache', roots', sys', calls'⟩ := world
  cases cases with
  | missing _ same =>
      obtain ⟨cache, _, sys⟩ := same
      dsimp only at cache sys
      subst cache sys
      exact agrees_same state _ agrees ⟨agrees.ok, rfl, rfl⟩ agrees.wellFormed rfl
        (fun _ => id) fun _ => id
  | watched file watch _ _ old cache _ sys =>
      have member := (watch_of_some _ _ _ old).1
      have present : (findWatch state.world.cache watch.wd).isSome = true := by
        obtain ⟨⟨wd, label⟩, inside, rfl⟩ := List.mem_map.mp (agrees.cached watch member)
        obtain ⟨index, found⟩ := find_watch_of_entry _ _ _ inside
        rw [found]
        rfl
      dsimp only at cache sys
      rw [if_pos present] at cache
      subst cache sys
      obtain ⟨wds, inos⟩ :=
        remask_watches state.sys file.ino (moveSelfFlag state.world.roots path)
      refine agrees_same state _ agrees ⟨⟨?_, ?_, ?_, agrees.ok.positive, agrees.ok.late⟩,
        wds, rfl⟩ agrees.wellFormed rfl (fun _ => id) fun _ => id
      · change ((remask state.sys _ _).watches.map Watch.wd).Nodup
        rw [wds]
        exact agrees.ok.descriptors
      · change ((remask state.sys _ _).watches.map Watch.ino).Nodup
        rw [inos]
        exact agrees.ok.inodes
      · intro other inside
        have listed : other.wd ∈ (remask state.sys _ _).watches.map Watch.wd :=
          List.mem_map.mpr ⟨other, inside, rfl⟩
        rw [wds, ← watched_iff] at listed
        obtain ⟨old, earlier, same⟩ := listed
        exact same ▸ agrees.ok.numbers old earlier
  | fresh file _ short unwatched cache _ sys =>
      have fresh : state.sys.nextWd ∉ descriptors state.world.cache := fun inside =>
        absurd (agrees.numbers _ inside).2 (Int.lt_irrefl _)
      have positive := agrees.ok.positive
      have missing : findWatch state.world.cache state.sys.nextWd = none :=
        (find_watch_none _ _ (by omega)).mpr fresh
      have longer : ∀ wd, wd ∈ descriptors
        (addWatchToCache state.world.cache state.sys.nextWd path) ↔
          wd = state.sys.nextWd ∨ wd ∈ descriptors state.world.cache := by
        intro wd
        unfold descriptors
        rw [((entries_add _ _ path (by omega) (Nat.le_of_lt short)).map Prod.fst).mem_iff,
          List.map_cons, List.mem_cons]
      have absent : ¬ (findWatch state.world.cache state.world.state.nextWd).isSome = true := by
        rw [show findWatch state.world.cache state.world.state.nextWd = none from missing]
        exact Bool.false_ne_true
      dsimp only at cache sys
      rw [if_neg absent] at cache
      subst cache sys
      refine ⟨⟨?_, ?_, ?_, ?_, agrees.ok.late⟩, ?_, ?_, ?_, ?_, agrees.shaped, ?_⟩
      · change ((state.sys.watches ++ [_]).map Watch.wd).Nodup
        rw [List.map_append, List.nodup_append]
        refine ⟨agrees.ok.descriptors, by simp, ?_⟩
        intro wd inside other last same
        obtain ⟨old, earlier, rfl⟩ := List.mem_map.mp inside
        obtain rfl := List.mem_singleton.mp last
        have below := (agrees.ok.numbers old earlier).2
        rw [same] at below
        exact absurd below (Int.lt_irrefl _)
      · change ((state.sys.watches ++ [_]).map Watch.ino).Nodup
        rw [List.map_append, List.nodup_append]
        refine ⟨agrees.ok.inodes, by simp, ?_⟩
        intro ino inside other last same
        obtain ⟨old, earlier, rfl⟩ := List.mem_map.mp inside
        obtain rfl := List.mem_singleton.mp last
        exact watch_of_none _ _ unwatched old earlier same
      · intro watch member
        change 1 ≤ watch.wd ∧ watch.wd < state.sys.nextWd + 1
        rcases List.mem_append.mp member with old | new
        · have range := agrees.ok.numbers watch old
          omega
        · obtain rfl := List.mem_singleton.mp new
          change 1 ≤ state.sys.nextWd ∧ state.sys.nextWd < state.sys.nextWd + 1
          omega
      · change 1 ≤ state.sys.nextWd + 1
        omega
      · exact add_well_formed _ state.sys.nextWd path (by omega) (Nat.le_of_lt short)
          agrees.wellFormed fresh
      · intro watch member
        rcases List.mem_append.mp member with old | new
        · exact (longer _).mpr (Or.inr (agrees.cached watch old))
        · obtain rfl := List.mem_singleton.mp new
          exact (longer _).mpr (Or.inl rfl)
      · intro wd member
        rcases (longer wd).mp member with rfl | old
        · exact Or.inl ⟨_, List.mem_append_right _ List.mem_cons_self, rfl⟩
        · refine (agrees.known wd old).imp_left ?_
          rintro ⟨watch, inside, same⟩
          exact ⟨watch, List.mem_append_left _ inside, same⟩
      · intro wd member
        change 1 ≤ wd ∧ wd < state.sys.nextWd + 1
        rcases (longer wd).mp member with rfl | old
        · omega
        · have range := agrees.numbers wd old
          omega
      · intro ev member loss
        obtain ⟨below, dead⟩ := agrees.gone ev member loss
        change ev.wd < state.sys.nextWd + 1 ∧ _
        refine ⟨by omega, fun watch inside => ?_⟩
        rcases List.mem_append.mp inside with old | new
        · exact dead watch old
        · obtain rfl := List.mem_singleton.mp new
          change state.sys.nextWd ≠ ev.wd
          omega

/-- A visited directory is watched afterwards; a new watch has a new entry under
the visited name, and nothing else changes but the flags of the old watch. -/
structure Grown (before after : World System) (file : File) : Prop where
  rest : after.roots = before.roots ∧ after.state.files = before.state.files ∧
    after.state.nextIno = before.state.nextIno ∧ after.state.queue = before.state.queue ∧
    after.state.limit = before.state.limit ∧ after.state.nextCookie = before.state.nextCookie ∧
    before.state.nextWd ≤ after.state.nextWd
  watched : ∃ watch ∈ after.state.watches, watch.ino = file.ino
  kept : ∀ watch ∈ before.state.watches, ∃ same ∈ after.state.watches,
    same.wd = watch.wd ∧ same.ino = watch.ino
  origin : ∀ watch ∈ after.state.watches,
    (∃ old ∈ before.state.watches, old.wd = watch.wd ∧ old.ino = watch.ino) ∨
      watch.ino = file.ino ∧ watch.wd ∉ descriptors before.cache
  flags : ∀ watch ∈ after.state.watches, watch ∈ before.state.watches ∨
    watch.ino = file.ino ∧ watch.moveSelf = moveSelfFlag before.roots file.path
  entries : ∀ entry ∈ entries before.cache, entry ∈ WatchCache.entries after.cache
  added : ∀ wd path, (wd, path) ∈ WatchCache.entries after.cache →
    (wd, path) ∈ WatchCache.entries before.cache ∨ path = file.path ∧
      wd ∉ descriptors before.cache ∧ ∃ watch ∈ after.state.watches,
        watch.wd = wd ∧ watch.ino = file.ino
  fresh : ∀ wd path, (wd, path) ∈ WatchCache.entries after.cache →
    (wd, path) ∉ WatchCache.entries before.cache →
    wd = before.state.nextWd ∧ watchOf before.state.watches file.ino = none

theorem walk_grown (kernel : Kernel System) (calls : kernel.addWatch = addWatch)
    (before after : World System) (positive : 1 ≤ before.state.nextWd)
    (cached : ∀ watch ∈ before.state.watches, watch.wd ∈ descriptors before.cache)
    (numbers : ∀ wd ∈ descriptors before.cache, wd < before.state.nextWd) (file : File)
    (found : lookup before.state.files file.path = some file)
    (walked : traverseTree kernel before file.path = some after) : Grown before after file := by
  cases traverse_cases kernel calls before after file.path walked with
  | missing absent _ => exact absurd (found.symm.trans absent) (by simp)
  | watched other watch there _ old cache roots sys =>
      obtain rfl := Option.some.inj (found.symm.trans there)
      obtain ⟨member, here⟩ := watch_of_some _ _ _ old
      have present : (findWatch before.cache watch.wd).isSome = true := by
        obtain ⟨⟨wd, label⟩, inside, rfl⟩ := List.mem_map.mp (cached watch member)
        obtain ⟨index, hit⟩ := find_watch_of_entry _ _ _ inside
        rw [hit]
        rfl
      rw [if_pos present] at cache
      have kept : ∀ one ∈ before.state.watches, ∃ same ∈ after.state.watches,
          same.wd = one.wd ∧ same.ino = one.ino := by
        intro one inside
        rw [sys]
        refine ⟨_, List.mem_map.mpr ⟨one, inside, rfl⟩, ?_, ?_⟩ <;>
        · split <;> rfl
      refine ⟨?_, ?_, kept, ?_, ?_, ?_, ?_, ?_⟩
      · rw [roots, sys]
        exact ⟨rfl, rfl, rfl, rfl, rfl, rfl, Int.le_refl _⟩
      · obtain ⟨same, inside, _, ino⟩ := kept watch member
        exact ⟨same, inside, ino.trans here⟩
      · intro one inside
        rw [sys] at inside
        obtain ⟨earlier, listed, rfl⟩ := List.mem_map.mp inside
        refine Or.inl ⟨earlier, listed, ?_, ?_⟩ <;>
        · split <;> rfl
      · intro one inside
        rw [sys] at inside
        obtain ⟨earlier, listed, rfl⟩ := List.mem_map.mp inside
        split
        · next same => exact Or.inr ⟨same, rfl⟩
        · exact Or.inl listed
      · rw [cache]
        exact fun _ => id
      · intro wd path inside
        rw [cache] at inside
        exact Or.inl inside
      · intro wd path inside new
        rw [cache] at inside
        exact absurd inside new
  | fresh other there short unwatched cache roots sys =>
      obtain rfl := Option.some.inj (found.symm.trans there)
      have fresh : before.state.nextWd ∉ descriptors before.cache := fun inside =>
        absurd (numbers _ inside) (Int.lt_irrefl _)
      have valid : 0 ≤ before.state.nextWd := Int.le_trans (by decide) positive
      have absent : ¬ (findWatch before.cache before.state.nextWd).isSome = true := by
        rw [(find_watch_none _ _ valid).mpr fresh]
        exact Bool.false_ne_true
      rw [if_neg absent] at cache
      have last : ⟨before.state.nextWd, file.ino, moveSelfFlag before.roots file.path⟩ ∈
          after.state.watches := by
        rw [sys]
        exact List.mem_append_right _ List.mem_cons_self
      have entry :=
        mem_entries_add before.cache before.state.nextWd file.path valid (Nat.le_of_lt short)
      refine ⟨?_, ⟨_, last, rfl⟩, ?_, ?_, ?_, ?_, ?_, ?_⟩
      · rw [roots, sys]
        exact ⟨rfl, rfl, rfl, rfl, rfl, rfl, Int.le_of_lt (Int.lt_succ _)⟩
      · intro one inside
        rw [sys]
        exact ⟨one, List.mem_append_left _ inside, rfl, rfl⟩
      · intro one inside
        rw [sys] at inside
        rcases List.mem_append.mp inside with old | new
        · exact Or.inl ⟨one, old, rfl, rfl⟩
        · obtain rfl := List.mem_singleton.mp new
          exact Or.inr ⟨rfl, fresh⟩
      · intro one inside
        rw [sys] at inside
        rcases List.mem_append.mp inside with old | new
        · exact Or.inl old
        · obtain rfl := List.mem_singleton.mp new
          exact Or.inr ⟨rfl, rfl⟩
      · intro one inside
        rw [cache]
        exact (entry one).mpr (Or.inr inside)
      · intro wd path inside
        rw [cache] at inside
        rcases (entry (wd, path)).mp inside with new | old
        · obtain ⟨rfl, rfl⟩ := Prod.mk.inj new
          exact Or.inr ⟨rfl, fresh, _, last, rfl, rfl⟩
        · exact Or.inl old
      · intro wd path inside new
        rw [cache] at inside
        obtain ⟨rfl, _⟩ := Prod.mk.inj (((entry (wd, path)).mp inside).resolve_right new)
        exact ⟨rfl, unwatched⟩

theorem visited_grown (refuse : Bool) (state : State) (agrees : Agrees state) (file : File)
    (found : lookup state.sys.files file.path = some file) (world : World System)
    (walked : traverseTree (kernel refuse) state.world file.path = some world) :
    Grown state.world world file :=
  walk_grown (kernel refuse) rfl state.world world agrees.ok.positive agrees.cached
    (fun wd listed => (agrees.numbers wd listed).2) file found walked

theorem rm_failed (refuse : Bool) (sys : System) (wd : Int)
    (failed : ((kernel refuse).rmWatch sys wd).1 = false) :
    ((kernel refuse).rmWatch sys wd).2 = sys := by
  dsimp only [kernel, FileTree.rmWatch] at failed ⊢
  cases refuse with
  | true => rfl
  | false =>
      cases found : watching sys.watches wd with
      | none => rfl
      | some watch => simp [found] at failed

theorem rm_done (refuse : Bool) (sys : System) (wd : Int)
    (done : ((kernel refuse).rmWatch sys wd).1 = true) :
    ((kernel refuse).rmWatch sys wd).2 =
      post { sys with watches := sys.watches.filter (·.wd != wd) } ⟨wd,
        IN_IGNORED, 0, []⟩ := by
  dsimp only [kernel, FileTree.rmWatch] at done ⊢
  cases refuse with
  | true => cases done
  | false =>
      cases found : watching sys.watches wd with
      | none => simp [found] at done
      | some watch => simp

/-- The watch and the slot go together, or neither of them. -/
theorem zap_slot_agrees (refuse : Bool) (state : State) (path : Path) (index : Nat)
    (agrees : Agrees state) :
    Agrees { state with world := (zapSlot (kernel refuse) path state.world index).2 } := by
  have cases := zap_slot_cases (kernel refuse) path state.world index
  generalize zapSlot (kernel refuse) path state.world index = outcome at cases ⊢
  cases cases with
  | skipped _ => exact agrees
  | failed slot calls there valid _ failed =>
      rw [rm_failed refuse state.world.state slot.wd failed]
      exact agrees_same state _ agrees ⟨agrees.ok, rfl, rfl⟩ agrees.wellFormed rfl
        (fun _ => id) fun _ => id
  | removed slot calls there valid _ done =>
      obtain ⟨wd, label⟩ := slot
      have removed : ((kernel refuse).rmWatch state.world.state wd).2 =
          post { state.sys with watches := state.sys.watches.filter (·.wd != wd) }
            ⟨wd, IN_IGNORED, 0, []⟩ := rm_done refuse state.world.state wd done
      rw [removed]
      generalize smaller :
        ({ state.sys with watches := state.sys.watches.filter (·.wd != wd) } : System) = rest
      have fewer : rest.watches = state.sys.watches.filter (·.wd != wd) := by rw [← smaller]
      have sublist : rest.watches.Sublist state.sys.watches := fewer ▸ List.filter_sublist
      obtain ⟨kept, posted, _⟩ := post_queue rest ⟨wd, IN_IGNORED, 0, []⟩
      obtain ⟨watches, nextWd, late, _⟩ := post_rest rest ⟨wd, IN_IGNORED, 0, []⟩
      have restOk : SystemOk rest := by
        subst smaller
        exact system_ok_fewer state.sys _ agrees.ok sublist rfl agrees.ok.late
      have numbered : rest.nextWd = state.sys.nextWd := by rw [← smaller]
      have queued : rest.queue = state.sys.queue := by rw [← smaller]
      have cleared := descriptors_clear _ agrees.wellFormed index wd label valid there
      have origin : ∀ ev ∈ state.buffer ++ (post rest ⟨wd, IN_IGNORED, 0, []⟩).queue,
          ev ∈ pending state ∨ ev = ⟨wd, IN_IGNORED, 0, []⟩ ∨ ev = overflow := by
        intro ev member
        rcases List.mem_append.mp member with buffered | inside
        · exact Or.inl (List.mem_append_left _ buffered)
        · rcases posted ev inside with old | new
          · exact Or.inl (List.mem_append_right _ (queued ▸ old))
          · exact Or.inr new
      refine ⟨post_ok rest _ restOk, clear_well_formed _ index agrees.wellFormed,
        ?_, ?_, ?_, ?_, ?_⟩
      · intro watch member
        change watch ∈ (post rest _).watches at member
        rw [watches, fewer, List.mem_filter] at member
        exact (cleared watch.wd).mpr ⟨agrees.cached watch member.1, by simpa using member.2⟩
      · intro other member
        obtain ⟨inside, different⟩ := (cleared other).mp member
        change (∃ watch ∈ (post rest _).watches, watch.wd = other) ∨ _
        rw [watches, fewer]
        refine (agrees.known other inside).imp ?_ ?_
        · rintro ⟨watch, earlier, same⟩
          exact ⟨watch, List.mem_filter.mpr ⟨earlier, by simpa [same] using different⟩,
            same⟩
        · refine Or.imp_right ?_
          rintro ⟨ev, waiting, reason⟩
          refine ⟨ev, ?_, reason⟩
          rcases List.mem_append.mp waiting with buffered | old
          · exact List.mem_append_left _ buffered
          · exact List.mem_append_right _ (kept ev (queued ▸ old))
      · intro other member
        change 1 ≤ other ∧ other < (post rest _).nextWd
        rw [nextWd, numbered]
        exact agrees.numbers other ((cleared other).mp member).1
      · intro ev member
        rcases origin ev member with old | rfl | rfl
        · exact agrees.shaped ev old
        · exact .ignored rfl
        · exact .overflow rfl
      · intro ev member loss
        change ev.wd < (post rest _).nextWd ∧ ∀ watch ∈ (post rest _).watches,
          watch.wd ≠ ev.wd
        rw [nextWd, numbered, watches]
        rcases origin ev member with old | rfl | rfl
        · obtain ⟨below, dead⟩ := agrees.gone ev old loss
          exact ⟨below, fun watch inside => dead watch (sublist.subset inside)⟩
        · rcases loss with bad |
            bad <;> exact absurd bad (by simp [IN_IGNORED, IN_DELETE_SELF, IN_UNMOUNT])
        · rcases loss with bad | bad <;> exact absurd bad (by decide)

theorem reinit_agrees (state : State) (counted : Bool) (agrees : Agrees state) :
    Agrees (reinit state counted) := by
  have empty : ∀ ev, ev ∉ pending (reinit state counted) := fun ev member => by cases member
  refine ⟨⟨List.nodup_nil, List.nodup_nil, ?_, Int.le_refl 1, agrees.ok.late⟩,
    empty_well_formed, ?_, ?_, ?_, fun ev member => absurd member (empty ev),
    fun ev member => absurd member (empty ev)⟩
  · intro watch member
    cases member
  · intro watch member
    cases member
  · intro wd member
    cases member
  · intro wd member
    cases member

theorem work_agrees (refuse : Bool) (before after : State) (agrees : Agrees before)
    (taken : work refuse before = some after) (running : after.exited = false) : Agrees after := by
  unfold work at taken
  split at taken
  · cases taken
  · split at taken
    · cases taken
    · next path rest tasks =>
        cases taken
        have later : ∀ counted, Task.reinit counted ∈ before.tasks →
            Task.reinit counted ∈ rest := by
          intro counted member
          rw [tasks] at member
          simpa using member
        unfold visit at running ⊢
        split
        · next present =>
            rw [if_pos present] at running
            cases walked : traverseTree (kernel refuse) before.world path with
            | none =>
                rw [walked] at running
                cases running
            | some world =>
                exact agrees_tasks { before with world := world } _
                  (traverse_agrees refuse before path world agrees walked)
                  fun counted member => ⟨counted, List.mem_cons_of_mem _ (later counted member)⟩
        · exact agrees_tasks before rest agrees fun counted member =>
            ⟨counted, later counted member⟩
    · next path rest tasks =>
        cases taken
        refine agrees_tasks before _ agrees fun counted member =>
          ⟨counted, List.mem_append_right _ ?_⟩
        rw [tasks] at member
        simpa using member
    · next path index strict rest tasks =>
        cases taken
        have later : ∀ counted, Task.reinit counted ∈ before.tasks →
            Task.reinit counted ∈ rest := by
          intro counted member
          rw [tasks] at member
          simpa using member
        unfold zap
        split
        · have zapped := zap_slot_agrees refuse before path index agrees
          split
          · next world done =>
              rw [done] at zapped
              exact agrees_tasks { before with world := world } _ zapped
                fun counted member => ⟨counted, List.mem_cons_of_mem _ (later counted member)⟩
          · next world done =>
              rw [done] at zapped
              refine agrees_tasks { before with world := world } _ zapped fun counted member => ?_
              split
              · exact ⟨true, List.mem_cons_self⟩
              · exact ⟨counted, later counted member⟩
        · exact agrees_tasks before rest agrees fun counted member =>
            ⟨counted, later counted member⟩
    · cases taken
      exact reinit_agrees before _ agrees
    · next rest tasks =>
        cases taken
        refine agrees_tasks before rest agrees fun counted member => ⟨counted, ?_⟩
        rw [tasks] at member
        simpa using member

theorem give_up_agrees (before after : State) (agrees : Agrees before)
    (taken : giveUp before = some after) : Agrees after := by
  obtain ⟨_, rfl, whole, walk, _⟩ := give_up_cases before after taken
  refine agrees_tasks before _ agrees fun counted member => ⟨counted, ?_⟩
  rw [whole] at member
  exact (List.mem_append.mp member).resolve_left fun dropped => nomatch walk _ dropped

theorem execute_agrees (before after : State) (command : Command) (agrees : Agrees before)
    (taken : execute before command = some after) : Agrees after := by
  unfold execute at taken
  split at taken
  · next quiet =>
      have still : before.tasks = [] := by
        unfold idle at quiet
        simp only [Bool.and_eq_true, List.isEmpty_iff] at quiet
        exact quiet.1.1.1
      have nothing : ∀ (tasks : List TreeRace.Task) counted,
        Task.reinit counted ∈ before.tasks →
          ∃ counted, Task.reinit counted ∈ tasks := by
        intro tasks counted member
        rw [still] at member
        cases member
      cases command with
      | add arg =>
          cases taken
          exact agrees_tasks before _ agrees (nothing _)
      | zap arg =>
          cases taken
          exact agrees_tasks before _ agrees (nothing _)
      | rebuild =>
          cases taken
          exact agrees_tasks before _ agrees (nothing _)
  · cases taken

/-- As long as the program runs. -/
def Running (state : State) : Prop := state.exited = false → Agrees state

theorem exited_stays (choice : Choice) (before after : State)
    (taken : step choice before = some after) (running : after.exited = false) :
    before.exited = false := by
  cases ended : before.exited with
  | false => rfl
  | true =>
      have still : idle before = false := by simp [idle, ended]
      cases choice with
      | happen op =>
          obtain ⟨_, _, rfl⟩ := Option.map_eq_some_iff.mp taken
          exact ended.symm.trans running
      | begin op =>
          obtain ⟨_, _, rfl⟩ := Option.map_eq_some_iff.mp taken
          exact ended.symm.trans running
      | notify index =>
          cases taken
          exact ended.symm.trans running
      | read amount => simp [step, TreeRace.read, still] at taken
      | reread amount => simp [step, reread, ended] at taken
      | process =>
          simp only [step, process] at taken
          split at taken
          · simp [ended] at taken
          · cases taken
      | work refuse => simp [step, work, ended] at taken
      | giveUp => simp [step, giveUp, ended] at taken
      | command command => simp [step, execute, still] at taken

theorem step_running (choice : Choice) (before after : State) (sound : Running before)
    (taken : step choice before = some after) : Running after := by
  intro running
  have agrees := sound (exited_stays choice before after taken running)
  cases choice with
  | happen op =>
      obtain ⟨effect, made, rfl⟩ := Option.map_eq_some_iff.mp taken
      exact agrees_evolves before _ agrees
        (happen_evolves before.sys effect agrees.ok (effect_silent before.sys op effect made))
  | begin op =>
      obtain ⟨effect, made, rfl⟩ := Option.map_eq_some_iff.mp taken
      exact agrees_evolves before _ agrees
        (begin_evolves before.sys effect agrees.ok (effect_silent before.sys op effect made))
  | notify index =>
      cases taken
      exact agrees_evolves before _ agrees (deliver_late_evolves before.sys index agrees.ok)
  | read amount => exact read_agrees before after amount agrees taken
  | reread amount => exact reread_agrees before after amount agrees taken
  | process => exact process_agrees before after agrees taken running
  | work refuse => exact work_agrees refuse before after agrees taken running
  | giveUp => exact give_up_agrees before after agrees taken
  | command command => exact execute_agrees before after command agrees taken

theorem start_agrees (roots : List Path) (sys : System) (late : sys.late = []) :
    Agrees (start roots sys) := by
  have empty : ∀ ev, ev ∉ pending (start roots sys) := fun ev member => by cases member
  refine ⟨⟨List.nodup_nil, List.nodup_nil, ?_, Int.le_refl 1, ?_⟩,
    empty_well_formed, ?_, ?_, ?_, fun ev member => absurd member (empty ev),
    fun ev member => absurd member (empty ev)⟩
  · intro watch member
    cases member
  · intro notices member
    change notices ∈ sys.late at member
    rw [late] at member
    cases member
  · intro watch member
    cases member
  · intro wd member
    cases member
  · intro wd member
    cases member

/-- The program starts on any files, with any bound on its queue. -/
def Started (state : State) : Prop := ∃ roots sys, sys.late = [] ∧ state = start roots sys

/-- Between two steps of the monitor, in every interleaving: descriptors occur once,
unused slots are blank, every watch is cached, and a cached descriptor without a
watch has the event that explains it still to come. -/
theorem watches_and_cache_agree (state : State) (reached : Transition.Reachable Started step state)
    (running : state.exited = false) (between : state.tasks = []) :
    ((entries state.world.cache).map Prod.fst).Nodup ∧
    (∀ slot ∈ state.world.cache, slot.wd < 0 → slot.wd = -1 ∧ slot.path = []) ∧
    (∀ watch ∈ state.sys.watches, ∃ path, (watch.wd, path) ∈ entries state.world.cache) ∧
    (∀ wd path, (wd, path) ∈ entries state.world.cache →
      (∃ watch ∈ state.sys.watches, watch.wd = wd) ∨
      ∃ ev ∈ state.buffer ++ state.sys.queue, ev = overflow ∨
        ev.wd = wd ∧ (ev.mask = IN_DELETE_SELF ∨ ev.mask = IN_UNMOUNT)) := by
  have sound : Running state := by
    refine Transition.reachable_invariant ?_ step_running reached
    rintro state ⟨roots, sys, late, rfl⟩ _
    exact start_agrees roots sys late
  have agrees := sound running
  refine ⟨agrees.wellFormed.distinct, ?_, ?_, ?_⟩
  · intro slot member negative
    rw [agrees.wellFormed.unused slot member negative]
    exact ⟨rfl, rfl⟩
  · intro watch member
    obtain ⟨⟨wd, path⟩, inside, same⟩ := List.mem_map.mp (agrees.cached watch member)
    cases same
    exact ⟨path, inside⟩
  · intro wd path member
    refine (agrees.known wd (List.mem_map.mpr ⟨_, member, rfl⟩)).imp_right ?_
    rintro (⟨counted, bad⟩ | announced)
    · rw [between] at bad
      cases bad
    · exact announced

-- The monitor of the directory "a" after its first walk.
theorem first_walk_agrees :
    let sys : System := ⟨[⟨[97], 0, true⟩], 1, [], 1, 0, [], [], none⟩
    ∃ state, Transition.replay step [.work false, .work false] (start [[97]] sys) = some state ∧
      state.tasks = [] ∧ entries state.world.cache = [(1, [97])] ∧
      ∀ watch ∈ state.sys.watches,
        ∃ path, (watch.wd, path) ∈ entries state.world.cache := by
  intro sys
  have walked : ∃ state, Transition.replay step [.work false, .work false] (start [[97]] sys) =
    some state ∧
      state.exited = false ∧ state.tasks = [] ∧ entries state.world.cache = [(1, [97])] :=
    ⟨_, rfl, rfl, rfl, by decide⟩
  obtain ⟨state, replayed, running, between, cached⟩ := walked
  have reached := Transition.replay_reachable _ (.start ⟨[[97]], sys, rfl, rfl⟩ :
    Transition.Reachable Started step (start [[97]] sys)) replayed
  exact ⟨state, replayed, between, cached,
    (watches_and_cache_agree state reached running between).2.2.1⟩

end Tlpi.WatchSet

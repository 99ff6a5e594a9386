import Mathlib.Algebra.Order.Ring.Int
import Tlpi.Faults
import Tlpi.Keyed

/-!
acl/acl_update.c: `findEntry`, `setPerms` and the loop of `main` that applies
the parsed entries to one file. libacl acts on an ACL as a list of entries;
every libacl call may fail, and `errExit` then ends the run. An entry handle is
the entry's position. An absent default ACL is the empty list.
-/

namespace Tlpi.AclUpdate

open Faults Keyed

inductive Tag where
  | undefinedTag
  | userObj
  | user
  | groupObj
  | group
  | mask
  | other
  deriving DecidableEq

structure Perms where
  read : Bool
  write : Bool
  execute : Bool
  deriving DecidableEq

structure Entry where
  tag : Tag
  qual : Nat
  perms : Perms
  deriving DecidableEq

abbrev Acl := List Entry

structure AccessControlEntry where
  tag : Tag
  qual : Nat
  perms : Nat
  deriving DecidableEq

def ACL_READ : Nat := 4

def ACL_WRITE : Nat := 2

def ACL_EXECUTE : Nat := 1

/-- `ACL_UNDEFINED_ID`, the qualifier of a new entry. -/
def undefinedId : Nat := 2 ^ 32 - 1

inductive AclType where
  | access
  | default
  deriving DecidableEq

structure FileAcls where
  access : Acl
  default : Acl
  deriving DecidableEq

def FileAcls.get (file : FileAcls) : AclType → Acl
  | .access => file.access
  | .default => file.default

def FileAcls.put (file : FileAcls) : AclType → Acl → FileAcls
  | .access, acl => { file with access := acl }
  | .default, acl => { file with default := acl }

structure Options where
  removeACL : Bool
  recalcMask : Bool
  useDefaultACL : Bool
  deriving DecidableEq

def Options.type (opts : Options) : AclType := if opts.useDefaultACL then .default else .access

/-! What libacl documents of the calls that do more than move data. -/

def noPerms : Perms := ⟨false, false, false⟩

def Perms.union (first second : Perms) : Perms :=
  ⟨first.read || second.read, first.write || second.write, first.execute || second.execute⟩

def Tag.groupClass : Tag → Bool
  | .user | .groupObj | .group => true
  | _ => false

def groupClassPerms (acl : Acl) : Perms :=
  (acl.filter (·.tag.groupClass)).foldl (fun perms entry => perms.union entry.perms) noPerms

/-- `acl_calc_mask` overwrites the mask entry, or adds one. -/
def calcMask (acl : Acl) : Acl :=
  match acl.findIdx? (·.tag == .mask) with
  | some index => acl.set index ⟨.mask, undefinedId, groupClassPerms acl⟩
  | none => acl ++ [⟨.mask, undefinedId, groupClassPerms acl⟩]

def aclValid (acl : Acl) : Bool :=
  let count (tag : Tag) : Nat := acl.countP (·.tag == tag)
  let quals (tag : Tag) : List Nat := (acl.filter (·.tag == tag)).map (·.qual)
  count .undefinedTag == 0 && count .userObj == 1 && count .groupObj == 1 && count .other == 1 &&
    decide (quals .user).Nodup && decide (quals .group).Nodup && decide (count .mask ≤ 1) &&
    (count .user + count .group == 0 || count .mask == 1)

/-! The program. -/

section Program
variable (fault : Nat → Bool)

def findFrom (tag : Tag) (qual : Nat) : Nat → Acl → Prog FileAcls (Option Nat)
  | _, [] => call fault none
  | index, entry :: rest => do
      call fault ()                                   -- acl_get_entry
      let entryTag ← call fault entry.tag             -- acl_get_tag_type
      if tag = entryTag then
        if tag = .user then do
          let uid ← call fault entry.qual             -- acl_get_qualifier
          call fault ()                               -- acl_free
          if qual = uid then pure (some index) else findFrom tag qual (index + 1) rest
        else if tag = .group then do
          let gid ← call fault entry.qual             -- acl_get_qualifier
          call fault ()                               -- acl_free
          if qual = gid then pure (some index) else findFrom tag qual (index + 1) rest
        else pure (some index)
      else findFrom tag qual (index + 1) rest

def findEntry (acl : Acl) (tag : Tag) (qual : Nat) : Prog FileAcls (Option Nat) :=
  findFrom fault tag qual 0 acl

def addPerm (perms bit : Nat) (permset added : Perms) : Prog FileAcls Perms :=
  if perms &&& bit ≠ 0 then call fault added else pure permset

def setPerms (entry : Entry) (perms : Nat) : Prog FileAcls Entry := do
  call fault ()                                       -- acl_get_permset
  let permset ← call fault noPerms                    -- acl_clear_perms
  let permset ← addPerm fault perms ACL_READ permset { permset with read := true }
  let permset ← addPerm fault perms ACL_WRITE permset { permset with write := true }
  let permset ← addPerm fault perms ACL_EXECUTE permset { permset with execute := true }
  call fault { entry with perms := permset }          -- acl_set_permset

/-- The entry that `acl_create_entry` and the calls after it make. -/
def createEntry (ace : AccessControlEntry) : Prog FileAcls Entry := do
  let entry ← call fault (Entry.mk .undefinedTag undefinedId noPerms)
  let entry ← call fault { entry with tag := ace.tag }
  if ace.tag = .user ∨ ace.tag = .group then call fault { entry with qual := ace.qual }
  else pure entry

def editEntry (opts : Options) (acl : Acl) (ace : AccessControlEntry) :
    Option Nat → Prog FileAcls Acl
  | some index =>
      if opts.removeACL then call fault (acl.eraseIdx index)
      else do
        let changed ← setPerms fault (acl.getD index ⟨.undefinedTag, undefinedId,
          noPerms⟩) ace.perms
        pure (acl.set index changed)
  | none =>
      if opts.removeACL then pure acl
      else do
        let new ← createEntry fault ace
        let new ← setPerms fault new ace.perms
        pure (acl ++ [new])

def recalculate (opts : Options) (acl : Acl) : Prog FileAcls Acl :=
  if opts.recalcMask then call fault (calcMask acl) else pure acl

def applyEntry (opts : Options) (acl : Acl) (ace : AccessControlEntry) : Prog FileAcls Acl := do
  let entry ← findEntry fault acl ace.tag ace.qual
  let acl ← editEntry fault opts acl ace entry
  recalculate fault opts acl

/-- `acl_valid` and `acl_set_file`. -/
def storeAcl (opts : Options) (acl : Acl) : Prog FileAcls Unit := do
  call fault ()
  if aclValid acl then do
    call fault ()
    let file ← read
    write (file.put opts.type acl)
  else fail

/-- The loop over `aclist`: the file is written after every entry. -/
def applyEntries (opts : Options) : Acl → List AccessControlEntry → Prog FileAcls Unit
  | _, [] => pure ()
  | acl, ace :: rest => do
      let acl ← applyEntry fault opts acl ace
      storeAcl fault opts acl
      applyEntries opts acl rest

def updateFile (opts : Options) (entries : List AccessControlEntry) : Prog FileAcls Unit := do
  let file ← read
  let acl ← call fault (file.get opts.type)           -- acl_get_file
  applyEntries fault opts acl entries
  call fault ()                                       -- acl_free

end Program

/-! The same update without the calls. -/

def Perms.ofBits (perms : Nat) : Perms :=
  ⟨perms &&& ACL_READ != 0, perms &&& ACL_WRITE != 0, perms &&& ACL_EXECUTE != 0⟩

def Tag.named : Tag → Bool
  | .user | .group => true
  | _ => false

/-- Qualifiers count only for named users and groups. -/
def entryKey (tag : Tag) (qual : Nat) : Tag × Nat := (tag, if tag.named then qual else 0)

def Entry.key (entry : Entry) : Tag × Nat := entryKey entry.tag entry.qual

def AccessControlEntry.key (ace : AccessControlEntry) : Tag × Nat := entryKey ace.tag ace.qual

def AccessControlEntry.entry (ace : AccessControlEntry) : Entry :=
  ⟨ace.tag, if ace.tag.named then ace.qual else undefinedId, Perms.ofBits ace.perms⟩

def edited (opts : Options) (acl : Acl) (ace : AccessControlEntry) : Acl :=
  match position Entry.key acl ace.key with
  | some index =>
      if opts.removeACL then acl.eraseIdx index
      else acl.set index
        { acl.getD index ⟨.undefinedTag, undefinedId, noPerms⟩ with
          perms := Perms.ofBits ace.perms }
  | none => if opts.removeACL then acl else acl ++ [ace.entry]

def applied (opts : Options) (acl : Acl) (ace : AccessControlEntry) : Acl :=
  if opts.recalcMask then calcMask (edited opts acl ace) else edited opts acl ace

def appliedAll (opts : Options) (acl : Acl) (entries : List AccessControlEntry) : Acl :=
  entries.foldl (applied opts) acl

section Outcome
variable (fault : Nat → Bool)

theorem matches_key (tag : Tag) (qual : Nat) (entry : Entry) :
    entry.key = entryKey tag qual ↔
      tag = entry.tag ∧ (tag.named = true → qual = entry.qual) := by
  unfold Entry.key entryKey
  constructor
  · intro same
    obtain ⟨tags, quals⟩ := Prod.mk.inj same
    refine ⟨tags.symm, fun named => ?_⟩
    rw [tags, if_pos named, if_pos named] at quals
    exact quals.symm
  · rintro ⟨rfl, quals⟩
    cases named : entry.tag.named with
    | true => simp [quals named]
    | false => simp

theorem find_from_computes (tag : Tag) (qual index : Nat) (acl : Acl) :
    Computes fault (findFrom fault tag qual index acl)
      ((position Entry.key acl (entryKey tag qual)).map (· + index)) := by
  induction acl generalizing index with
  | nil => exact computes_call fault none
  | cons entry rest ih =>
      have later : Computes fault (findFrom fault tag qual (index + 1) rest)
          (((position Entry.key rest (entryKey tag qual)).map (· + 1)).map (· + index)) := by
        have shifted : (fun found : Nat => found + (index + 1)) = (· + index) ∘ (· + 1) := by
          funext found
          simp only [Function.comp]
          omega
        rw [Option.map_map, ← shifted]
        exact ih (index + 1)
      have compared : Computes fault (if qual = entry.qual then pure (some index) else
          findFrom fault tag qual (index + 1) rest)
          ((if qual = entry.qual then some 0 else
            (position Entry.key rest (entryKey tag qual)).map (· + 1)).map (· + index)) := by
        by_cases quals : qual = entry.qual
        · rw [if_pos quals, if_pos quals, Option.map_some, Nat.zero_add]
          exact computes_pure fault _
        · rw [if_neg quals, if_neg quals]
          exact later
      rw [position_cons]
      unfold findFrom
      apply computes_bind _ _ _ _ _ (computes_call fault ())
      apply computes_bind _ _ _ _ _ (computes_call fault entry.tag)
      by_cases tags : tag = entry.tag
      · rw [if_pos tags]
        have qualified : tag.named = true →
            (entry.key = entryKey tag qual ↔ qual = entry.qual) := by
          intro named
          rw [matches_key]
          exact ⟨fun both => both.2 named, fun same => ⟨tags, fun _ => same⟩⟩
        by_cases users : tag = .user
        · rw [if_pos users]
          apply computes_bind _ _ _ _ _ (computes_call fault entry.qual)
          apply computes_bind _ _ _ _ _ (computes_call fault ())
          simpa only [qualified (by rw [users]; rfl)] using compared
        · rw [if_neg users]
          by_cases groups : tag = .group
          · rw [if_pos groups]
            apply computes_bind _ _ _ _ _ (computes_call fault entry.qual)
            apply computes_bind _ _ _ _ _ (computes_call fault ())
            simpa only [qualified (by rw [groups]; rfl)] using compared
          · have unnamed : ¬ tag.named = true := by
              cases tag <;> simp_all [Tag.named]
            rw [if_neg groups,
              if_pos ((matches_key tag qual entry).mpr ⟨tags,
                fun named => absurd named unnamed⟩),
              Option.map_some, Nat.zero_add]
            exact computes_pure fault _
      · rw [if_neg tags, if_neg (fun same => tags ((matches_key tag qual entry).mp same).1)]
        exact later

theorem find_entry_computes (acl : Acl) (tag : Tag) (qual : Nat) :
    Computes fault (findEntry fault acl tag qual) (position Entry.key acl (entryKey tag qual)) := by
  simpa [findEntry] using find_from_computes fault tag qual 0 acl

theorem add_perm_computes (perms bit : Nat) (permset added : Perms) :
    Computes fault (addPerm fault perms bit permset added)
      (if perms &&& bit ≠ 0 then added else permset) := by
  unfold addPerm
  split
  · exact computes_call fault added
  · exact computes_pure fault permset

theorem set_perms_computes (entry : Entry) (perms : Nat) :
    Computes fault (setPerms fault entry perms) { entry with perms := Perms.ofBits perms } := by
  apply computes_bind _ _ _ _ _ (computes_call fault ())
  apply computes_bind _ _ _ _ _ (computes_call fault noPerms)
  apply computes_bind _ _ _ _ _ (add_perm_computes fault perms ACL_READ _ _)
  apply computes_bind _ _ _ _ _ (add_perm_computes fault perms ACL_WRITE _ _)
  apply computes_bind _ _ _ _ _ (add_perm_computes fault perms ACL_EXECUTE _ _)
  convert computes_call fault _ using 2
  by_cases reads : perms &&& ACL_READ = 0 <;> by_cases writes : perms &&& ACL_WRITE = 0 <;>
    by_cases executes : perms &&& ACL_EXECUTE = 0 <;>
    simp [Perms.ofBits, noPerms, reads, writes, executes]

theorem create_entry_computes (ace : AccessControlEntry) :
    Computes fault (createEntry fault ace) { ace.entry with perms := noPerms } := by
  apply computes_bind _ _ _ _ _ (computes_call fault _)
  apply computes_bind _ _ _ _ _ (computes_call fault _)
  have named : ace.tag = .user ∨ ace.tag = .group ↔ ace.tag.named = true := by
    cases ace.tag <;> simp [Tag.named]
  by_cases qualified : ace.tag.named = true
  · rw [if_pos (named.mpr qualified)]
    simpa [AccessControlEntry.entry, qualified] using computes_call fault _
  · rw [if_neg (fun either => qualified (named.mp either))]
    simpa [AccessControlEntry.entry, qualified] using computes_pure fault _

theorem edit_entry_computes (opts : Options) (acl : Acl) (ace : AccessControlEntry) :
    Computes fault (editEntry fault opts acl ace (position Entry.key acl ace.key))
      (edited opts acl ace) := by
  unfold edited
  cases position Entry.key acl ace.key with
  | some index =>
      unfold editEntry
      cases opts.removeACL with
      | true => exact computes_call fault _
      | false =>
          apply computes_bind _ _ _ _ _ (set_perms_computes fault _ _)
          exact computes_pure fault _
  | none =>
      unfold editEntry
      cases opts.removeACL with
      | true => exact computes_pure fault acl
      | false =>
          apply computes_bind _ _ _ _ _ (create_entry_computes fault ace)
          apply computes_bind _ _ _ _ _ (set_perms_computes fault _ _)
          exact computes_pure fault _

theorem apply_entry_computes (opts : Options) (acl : Acl) (ace : AccessControlEntry) :
    Computes fault (applyEntry fault opts acl ace) (applied opts acl ace) := by
  apply computes_bind _ _ _ _ _ (find_entry_computes fault acl ace.tag ace.qual)
  apply computes_bind _ _ _ _ _ (edit_entry_computes fault opts acl ace)
  unfold recalculate applied
  split
  · exact computes_call fault _
  · exact computes_pure fault _

theorem get_put (file : FileAcls) (type : AclType) (acl : Acl) :
    (file.put type acl).get type = acl := by
  cases type <;> rfl

theorem put_get (file : FileAcls) (type : AclType) : file.put type (file.get type) = file := by
  cases type <;> rfl

theorem put_put (file : FileAcls) (type : AclType) (first second : Acl) :
    (file.put type first).put type second = file.put type second := by
  cases type <;> rfl

theorem store_acl_outcome (opts : Options) (acl : Acl) (world : World FileAcls) :
    world.calls ≤ (storeAcl fault opts acl world).2.calls ∧
    ((storeAcl fault opts acl world).1 = some () ∧ aclValid acl = true ∧
        ¬ Failed fault world.calls (storeAcl fault opts acl world).2.calls ∧
        (storeAcl fault opts acl world).2.state = world.state.put opts.type acl ∨
      (storeAcl fault opts acl world).1 = none ∧
        (Failed fault world.calls (storeAcl fault opts acl world).2.calls ∨
          ¬ aclValid acl = true) ∧
        (storeAcl fault opts acl world).2.state = world.state) := by
  have checked : Computes fault (call fault () : Prog FileAcls Unit) () := computes_call fault ()
  unfold storeAcl
  rcases checked.result world with ⟨passed, fine⟩ | ⟨refused, bad⟩
  · rw [bind_some _ _ world () passed]
    by_cases valid : aclValid acl = true
    · rw [if_pos valid]
      rcases checked.result (call fault () world).2 with ⟨stored, kept⟩ | ⟨unstored, lost⟩
      · rw [bind_some _ _ _ () stored]
        refine ⟨Nat.le_add_right world.calls 2, Or.inl ⟨rfl, valid, ?_, rfl⟩⟩
        exact fun failed => ((failed_trans fault _ _ _ (checked.calls world) (checked.calls _)).mp
          failed).elim fine kept
      · rw [bind_none _ _ _ unstored]
        refine ⟨Nat.le_add_right world.calls 2, Or.inr ⟨rfl, Or.inl ?_, rfl⟩⟩
        exact (failed_trans fault _ _ _ (checked.calls world) (checked.calls _)).mpr (Or.inr lost)
    · rw [if_neg valid]
      exact ⟨checked.calls world, Or.inr ⟨rfl, Or.inr valid, rfl⟩⟩
  · rw [bind_none _ _ world refused]
    exact ⟨checked.calls world, Or.inr ⟨rfl, Or.inl bad, rfl⟩⟩

/-- A run writes the ACLs that follow from longer and longer parts of the list
and stops before the first one that is not valid. -/
structure Stopped (opts : Options) (acl : Acl) (entries : List AccessControlEntry)
    (before after : World FileAcls) (done : Nat) : Prop where
  within : done ≤ entries.length
  valid : ∀ k, 1 ≤ k → k ≤ done → aclValid (appliedAll opts acl (entries.take k)) = true
  state : after.state = before.state.put opts.type (appliedAll opts acl (entries.take done))
  calls : before.calls ≤ after.calls

def Outcome (opts : Options) (acl : Acl) (entries : List AccessControlEntry)
    (before : World FileAcls) (out : Option Unit × World FileAcls) : Prop :=
  out.1 = some () ∧ ¬ Failed fault before.calls out.2.calls ∧
      Stopped opts acl entries before out.2 entries.length ∨
    out.1 = none ∧ ∃ done, Stopped opts acl entries before out.2 done ∧
      (Failed fault before.calls out.2.calls ∨
        done < entries.length ∧
        ¬ aclValid (appliedAll opts acl (entries.take (done + 1))) = true)

theorem stopped_none (opts : Options) (entries : List AccessControlEntry)
    (before after : World FileAcls) (same : after.state = before.state)
    (later : before.calls ≤ after.calls) :
    Stopped opts (before.state.get opts.type) entries before after 0 := by
  refine ⟨Nat.zero_le _, fun k low high => absurd (Nat.le_trans low high) (by decide),
    ?_, later⟩
  rw [List.take_zero, appliedAll, List.foldl_nil, put_get, same]

theorem stopped_cons (opts : Options) (acl : Acl) (ace : AccessControlEntry)
    (rest : List AccessControlEntry) (before middle after : World FileAcls) (done : Nat)
    (valid : aclValid (applied opts acl ace) = true)
    (stored : middle.state = before.state.put opts.type (applied opts acl ace))
    (earlier : before.calls ≤ middle.calls)
    (tail : Stopped opts (applied opts acl ace) rest middle after done) :
    Stopped opts acl (ace :: rest) before after (done + 1) := by
  refine ⟨Nat.succ_le_succ tail.within, ?_, ?_, Nat.le_trans earlier tail.calls⟩
  · intro k low high
    obtain ⟨k, rfl⟩ : ∃ k', k = k' + 1 := ⟨k - 1, by omega⟩
    by_cases first : k = 0
    · subst first
      exact valid
    · exact tail.valid k (Nat.pos_of_ne_zero first) (Nat.le_of_succ_le_succ high)
  · rw [tail.state, stored, put_put]
    rfl

-- Induction over the list: every entry either stops the run or leaves the file
-- with the ACL that the rest of the list starts from.
theorem apply_entries_outcome (opts : Options) (entries : List AccessControlEntry) (acl : Acl)
    (world : World FileAcls) (current : world.state.get opts.type = acl) :
    Outcome fault opts acl entries world (applyEntries fault opts acl entries world) := by
  induction entries generalizing acl world with
  | nil =>
      subst current
      exact Or.inl ⟨rfl, not_failed_self fault _,
        stopped_none opts [] world world rfl (Nat.le_refl _)⟩
  | cons ace rest ih =>
      have change := apply_entry_computes fault opts acl ace
      unfold applyEntries
      rcases change.result world with ⟨changed, fine⟩ | ⟨unchanged, bad⟩
      · rw [bind_some _ _ world _ changed]
        obtain ⟨counted, stored | unstored⟩ :=
          store_acl_outcome fault opts (applied opts acl ace)
            (applyEntry fault opts acl ace world).2
        · obtain ⟨finished, valid, kept, written⟩ := stored
          rw [bind_some _ _ _ () finished]
          generalize storeAcl fault opts (applied opts acl ace)
            (applyEntry fault opts acl ace world).2
            = outcome at *
          rw [change.state world] at written
          have clean : ¬ Failed fault world.calls outcome.2.calls := fun failed =>
            ((failed_trans fault _ _ _ (change.calls world) counted).mp failed).elim fine kept
          have ordered := Nat.le_trans (change.calls world) counted
          have longer : ∀ after done,
            Stopped opts (applied opts acl ace) rest outcome.2 after done →
              Stopped opts acl (ace :: rest) world after (done + 1) := fun after done =>
            stopped_cons opts acl ace rest world outcome.2 after done valid written ordered
          rcases ih (applied opts acl ace) outcome.2 (by rw [written, get_put]) with
            ⟨ended, later, tail⟩ | ⟨ended, done, tail, cause⟩
          · refine Or.inl ⟨ended, fun failed => ?_, longer _ _ tail⟩
            exact ((failed_trans fault _ _ _ ordered tail.calls).mp failed).elim clean later
          · refine Or.inr ⟨ended, done + 1, longer _ _ tail, ?_⟩
            rcases cause with failed | ⟨short, invalid⟩
            · exact Or.inl ((failed_trans fault _ _ _ ordered tail.calls).mpr (Or.inr failed))
            · exact Or.inr ⟨Nat.succ_lt_succ short, invalid⟩
        · obtain ⟨finished, cause, kept⟩ := unstored
          rw [bind_none _ _ _ finished]
          rw [change.state world] at kept
          subst current
          refine Or.inr ⟨rfl, 0, stopped_none opts _ world _ kept
            (Nat.le_trans (change.calls world) counted), ?_⟩
          rcases cause with failed | invalid
          · exact Or.inl ((failed_trans fault _ _ _ (change.calls world) counted).mpr
              (Or.inr failed))
          · exact Or.inr ⟨Nat.zero_lt_succ _, invalid⟩
      · rw [bind_none _ _ world unchanged]
        subst current
        exact Or.inr ⟨rfl, 0,
          stopped_none opts _ world _ (change.state world) (change.calls world), Or.inl bad⟩

theorem outcome_shift (opts : Options) (acl : Acl) (entries : List AccessControlEntry)
    (before middle : World FileAcls) (out : Option Unit × World FileAcls)
    (same : middle.state = before.state) (later : before.calls ≤ middle.calls)
    (fine : ¬ Failed fault before.calls middle.calls)
    (outcome : Outcome fault opts acl entries middle out) :
    Outcome fault opts acl entries before out := by
  have moved : ∀ done, Stopped opts acl entries middle out.2 done →
      Stopped opts acl entries before out.2 done := fun done stopped =>
    ⟨stopped.within, stopped.valid, same ▸ stopped.state, Nat.le_trans later stopped.calls⟩
  rcases outcome with ⟨ended, kept, stopped⟩ | ⟨ended, done, stopped, cause⟩
  · refine Or.inl ⟨ended, fun failed => ?_, moved _ stopped⟩
    exact ((failed_trans fault _ _ _ later stopped.calls).mp failed).elim fine kept
  · refine Or.inr ⟨ended, done, moved done stopped, cause.imp_left fun failed => ?_⟩
    exact (failed_trans fault _ _ _ later stopped.calls).mpr (Or.inr failed)

theorem outcome_free (opts : Options) (acl : Acl) (entries : List AccessControlEntry)
    (before : World FileAcls) (prog : Prog FileAcls Unit)
    (outcome : Outcome fault opts acl entries before (prog before)) :
    Outcome fault opts acl entries before ((prog >>= fun _ => call fault ()) before) := by
  have freed : Computes fault (call fault () : Prog FileAcls Unit) () := computes_call fault ()
  rcases outcome with ⟨ended, kept, stopped⟩ | ⟨ended, done, stopped, cause⟩
  · rw [bind_some _ _ before () ended]
    have whole : Stopped opts acl entries before (call fault () (prog before).2).2 entries.length :=
      ⟨stopped.within, stopped.valid, stopped.state, Nat.le_trans stopped.calls (freed.calls _)⟩
    rcases freed.result (prog before).2 with ⟨done, fine⟩ | ⟨undone, bad⟩
    · refine Or.inl ⟨done, fun failed => ?_, whole⟩
      exact ((failed_trans fault _ _ _ stopped.calls (freed.calls _)).mp failed).elim kept fine
    · refine Or.inr ⟨undone, entries.length, whole, Or.inl ?_⟩
      exact (failed_trans fault _ _ _ stopped.calls (freed.calls _)).mpr (Or.inr bad)
  · rw [bind_none _ _ before ended]
    exact Or.inr ⟨rfl, done, stopped, cause⟩

theorem update_file_outcome (opts : Options) (entries : List AccessControlEntry) (file : FileAcls)
    (start : Nat) :
    Outcome fault opts (file.get opts.type) entries ⟨file, start⟩
      (updateFile fault opts entries ⟨file, start⟩) := by
  have got : Computes fault (call fault (file.get opts.type) : Prog FileAcls Acl) _ :=
    computes_call fault _
  unfold updateFile
  rw [bind_some read _ ⟨file, start⟩ file rfl]
  rcases got.result ⟨file, start⟩ with ⟨opened, fine⟩ | ⟨unopened, bad⟩
  · rw [bind_some _ _ (read ⟨file, start⟩).2 _ opened]
    apply outcome_shift fault opts _ entries ⟨file, start⟩ _ _ (got.state ⟨file, start⟩)
      (got.calls ⟨file, start⟩) fine
    exact outcome_free fault opts _ entries _ _ (apply_entries_outcome fault opts entries _ _ rfl)
  · rw [bind_none _ _ (read ⟨file, start⟩).2 unopened]
    exact Or.inr ⟨rfl, 0, stopped_none opts entries ⟨file, start⟩ _
      (got.state ⟨file, start⟩) (got.calls ⟨file, start⟩), Or.inl bad⟩

/-- The file's ACL with all entries applied, if that is valid and no call fails;
otherwise a failed run and the file as it was. -/
def AllOrNothing (opts : Options) (entries : List AccessControlEntry) (file : FileAcls)
    (start : Nat) : Prop :=
  let out := updateFile fault opts entries ⟨file, start⟩
  let result := appliedAll opts (file.get opts.type) entries
  (aclValid result = true ∧ ¬ Failed fault start out.2.calls →
    out.1 = some () ∧ out.2.state = file.put opts.type result) ∧
  (¬ (aclValid result = true ∧ ¬ Failed fault start out.2.calls) →
    out.1 = none ∧ out.2.state = file)

/-- The loop validates and stores after every entry, so a run goes as far as the
intermediate ACLs are valid and keeps what it has stored. -/
theorem update_stores_valid_prefixes (opts : Options) (entries : List AccessControlEntry)
    (file : FileAcls) (start : Nat) :
    let out := updateFile fault opts entries ⟨file, start⟩
    let acl := fun k => appliedAll opts (file.get opts.type) (entries.take k)
    (out.1 = some () ↔ (∀ k, 1 ≤ k → k ≤ entries.length → aclValid (acl k) = true) ∧
      ¬ Failed fault start out.2.calls) ∧
    (out.1 = some () →
      out.2.state = file.put opts.type (appliedAll opts (file.get opts.type) entries)) ∧
    (out.1 = none → ∃ done, done ≤ entries.length ∧
      (∀ k, 1 ≤ k → k ≤ done → aclValid (acl k) = true) ∧
      out.2.state = file.put opts.type (acl done) ∧
      (¬ Failed fault start out.2.calls →
        done < entries.length ∧ ¬ aclValid (acl (done + 1)) = true)) := by
  intro out acl
  have outcome : Outcome fault opts _ entries _ out :=
    update_file_outcome fault opts entries file start
  rcases outcome with ⟨ended, kept, stopped⟩ | ⟨ended, done, stopped, cause⟩
  · refine ⟨⟨fun _ => ⟨stopped.valid, kept⟩, fun _ => ended⟩, fun _ => ?_,
      fun undone => ?_⟩
    · simpa using stopped.state
    · rw [ended] at undone
      cases undone
  · refine ⟨⟨fun finished => ?_, ?_⟩, fun finished => ?_, fun _ => ?_⟩
    · rw [ended] at finished
      cases finished
    · rintro ⟨valid, kept⟩
      rcases cause with failed | ⟨short, invalid⟩
      · exact absurd failed kept
      · exact absurd (valid (done + 1) (Nat.le_add_left 1 done) short) invalid
    · rw [ended] at finished
      cases finished
    · exact ⟨done, stopped.within, stopped.valid, stopped.state,
        fun kept => cause.resolve_left kept⟩

end Outcome

def minimalAcl : Acl :=
  [⟨.userObj, undefinedId, Perms.ofBits 6⟩, ⟨.groupObj, undefinedId, Perms.ofBits 4⟩,
    ⟨.other, undefinedId, Perms.ofBits 4⟩]

-- acl_update -n -m u::rwx,u:1000:r,m::r and acl_update -x u:1000,o without a
-- failing call: the first entry is stored, the second leaves no valid ACL.
theorem update_not_all_or_nothing :
    ¬ AllOrNothing (fun _ => false) ⟨false, false, false⟩
      [⟨.userObj, 0, 7⟩, ⟨.user, 1000, 4⟩, ⟨.mask, 0, 4⟩] ⟨minimalAcl, []⟩ 0 ∧
    ¬ AllOrNothing (fun _ => false) ⟨true, true, false⟩
      [⟨.user, 1000, 0⟩, ⟨.other, 0, 0⟩]
      ⟨minimalAcl ++ [⟨.user, 1000, Perms.ofBits 6⟩,
        ⟨.mask, undefinedId, Perms.ofBits 6⟩], []⟩ 0 := by
  have clean : ∀ start stop, ¬ Failed (fun _ => false) start stop := by
    rintro start stop ⟨n, _, _, bad⟩
    cases bad
  constructor
  · intro holds
    have ran := (holds.1 ⟨by decide, clean _ _⟩).1
    revert ran
    decide +kernel
  · intro holds
    have kept := (holds.2 (fun both => absurd both.1 (by decide))).2
    revert kept
    decide +kernel

/-! What the entries of the result are. -/

theorem position_mask (acl : Acl) :
    acl.findIdx? (·.tag == .mask) = position Entry.key acl (entryKey .mask undefinedId) := by
  unfold position
  congr 1
  funext entry
  have same : entry.key = entryKey .mask undefinedId ↔ entry.tag = .mask := by
    rw [matches_key]
    exact ⟨fun both => both.1.symm, fun tags => ⟨tags.symm, fun named => by cases named⟩⟩
  by_cases here : entry.tag = .mask
  · simp [here, same.mpr here]
  · simp [here, mt same.mp here]

theorem distinct_calc_mask (acl : Acl) (distinct : Distinct Entry.key acl) :
    Distinct Entry.key (calcMask acl) := by
  unfold calcMask
  rw [position_mask]
  cases found : position Entry.key acl (entryKey .mask undefinedId) with
  | some index =>
      unfold Distinct
      rw [keys_set Entry.key acl _ index _ found rfl]
      exact distinct
  | none => exact distinct_append Entry.key acl _ distinct found

theorem lookup_calc_mask (acl : Acl) (key : Tag × Nat) (unmasked : key.1 ≠ .mask) :
    lookup Entry.key (calcMask acl) key = lookup Entry.key acl key := by
  have other : key ≠ entryKey .mask undefinedId := fun same => unmasked (by rw [same]; rfl)
  unfold calcMask
  rw [position_mask]
  cases found : position Entry.key acl (entryKey .mask undefinedId) with
  | some index =>
      rw [lookup_set Entry.key acl _ index _ found rfl, if_neg other]
  | none =>
      exact (lookup_append Entry.key acl ⟨.mask, undefinedId,
        groupClassPerms acl⟩ found key).trans (if_neg other)

theorem entry_key (ace : AccessControlEntry) : ace.entry.key = ace.key := by
  unfold AccessControlEntry.key Entry.key entryKey AccessControlEntry.entry
  cases ace.tag.named <;> simp

theorem changed_key (acl : Acl) (ace : AccessControlEntry) (index : Nat)
    (found : position Entry.key acl ace.key = some index) (perms : Perms) :
    Entry.key { acl.getD index ⟨.undefinedTag, undefinedId, noPerms⟩ with perms := perms } =
      ace.key := by
  obtain ⟨entry, there, same⟩ := position_item Entry.key acl ace.key index found
  rw [List.getD_eq_getElem?_getD, there]
  exact same

theorem distinct_edited (opts : Options) (acl : Acl) (ace : AccessControlEntry)
    (distinct : Distinct Entry.key acl) : Distinct Entry.key (edited opts acl ace) := by
  unfold edited
  cases found : position Entry.key acl ace.key with
  | some index =>
      cases opts.removeACL with
      | true => exact distinct_erase Entry.key acl index distinct
      | false =>
          change ((acl.set index _).map Entry.key).Nodup
          rw [keys_set Entry.key acl _ index _ found (changed_key acl ace index found _)]
          exact distinct
  | none =>
      cases opts.removeACL with
      | true => exact distinct
      | false =>
          rw [← entry_key] at found
          exact distinct_append Entry.key acl _ distinct found

theorem lookup_removed (opts : Options) (acl : Acl) (ace : AccessControlEntry) (key : Tag × Nat)
    (distinct : Distinct Entry.key acl) (removing : opts.removeACL = true) :
    lookup Entry.key (edited opts acl ace) key =
      if key = ace.key then none else lookup Entry.key acl key := by
  unfold edited
  cases found : position Entry.key acl ace.key with
  | some index =>
      simp only [removing, if_true]
      exact lookup_erase Entry.key acl ace.key index distinct found key
  | none =>
      simp only [removing, if_true]
      split
      · next here =>
          subst here
          exact lookup_absent Entry.key acl _ (position_absent Entry.key acl _ found)
      · rfl

theorem lookup_modified (opts : Options) (acl : Acl) (ace : AccessControlEntry) (key : Tag × Nat)
    (modifying : opts.removeACL = false) :
    (lookup Entry.key (edited opts acl ace) key).map Entry.perms =
      if key = ace.key then some (Perms.ofBits ace.perms)
      else (lookup Entry.key acl key).map Entry.perms := by
  unfold edited
  cases found : position Entry.key acl ace.key with
  | some index =>
      simp only [modifying, Bool.false_eq_true, if_false]
      rw [lookup_set Entry.key acl ace.key index _ found (changed_key acl ace index found _)]
      split <;> rfl
  | none =>
      simp only [modifying, Bool.false_eq_true, if_false]
      rw [← entry_key] at found ⊢
      rw [lookup_append Entry.key acl ace.entry found]
      split <;> rfl

theorem distinct_applied (opts : Options) (acl : Acl) (ace : AccessControlEntry)
    (distinct : Distinct Entry.key acl) : Distinct Entry.key (applied opts acl ace) := by
  unfold applied
  split
  · exact distinct_calc_mask _ (distinct_edited opts acl ace distinct)
  · exact distinct_edited opts acl ace distinct

theorem lookup_applied (opts : Options) (acl : Acl) (ace : AccessControlEntry) (key : Tag × Nat)
    (unmasked : key.1 ≠ .mask) :
    lookup Entry.key (applied opts acl ace) key = lookup Entry.key (edited opts acl ace) key := by
  unfold applied
  split
  · exact lookup_calc_mask _ key unmasked
  · rfl

theorem distinct_applied_all (opts : Options) (entries : List AccessControlEntry) (acl : Acl)
    (distinct : Distinct Entry.key acl) : Distinct Entry.key (appliedAll opts acl entries) := by
  induction entries generalizing acl with
  | nil => exact distinct
  | cons ace rest ih => exact ih _ (distinct_applied opts acl ace distinct)

theorem lookup_removed_all (opts : Options) (entries : List AccessControlEntry) (acl : Acl)
    (key : Tag × Nat) (unmasked : key.1 ≠ .mask) (distinct : Distinct Entry.key acl)
    (removing : opts.removeACL = true) :
    lookup Entry.key (appliedAll opts acl entries) key =
      if key ∈ entries.map AccessControlEntry.key then none else lookup Entry.key acl key := by
  induction entries generalizing acl with
  | nil => rfl
  | cons ace rest ih =>
      change lookup Entry.key (appliedAll opts (applied opts acl ace) rest) key = _
      rw [ih _ (distinct_applied opts acl ace distinct), lookup_applied opts acl ace key unmasked,
        lookup_removed opts acl ace key distinct removing]
      by_cases here : key = ace.key
      · simp [here]
      · simp [here]

/-- The last entry of the list with a given key. -/
def lastNamed (entries : List AccessControlEntry) (key : Tag × Nat) : Option AccessControlEntry :=
  lookup AccessControlEntry.key entries.reverse key

theorem last_named_cons (ace : AccessControlEntry) (rest : List AccessControlEntry)
    (key : Tag × Nat) :
    lastNamed (ace :: rest) key =
      (lastNamed rest key).or (if key = ace.key then some ace else none) := by
  unfold lastNamed lookup
  rw [List.reverse_cons, List.find?_append]
  congr 1
  by_cases here : key = ace.key
  · simp [here]
  · simp [here, Ne.symm here]

theorem lookup_modified_all (opts : Options) (entries : List AccessControlEntry) (acl : Acl)
    (key : Tag × Nat) (unmasked : key.1 ≠ .mask) (modifying : opts.removeACL = false) :
    (lookup Entry.key (appliedAll opts acl entries) key).map Entry.perms =
      ((lastNamed entries key).map fun ace => Perms.ofBits ace.perms).or
        ((lookup Entry.key acl key).map Entry.perms) := by
  induction entries generalizing acl with
  | nil => rfl
  | cons ace rest ih =>
      change (lookup Entry.key (appliedAll opts (applied opts acl ace) rest) key).map Entry.perms =
        _
      rw [ih, lookup_applied opts acl ace key unmasked, lookup_modified opts acl ace key modifying,
        last_named_cons]
      cases lastNamed rest key with
      | some later => rfl
      | none => split <;> rfl

theorem put_other (file : FileAcls) (type asked : AclType) (acl : Acl) (other : asked ≠ type) :
    (file.put type acl).get asked = file.get asked := by
  cases type <;> cases asked <;> first | rfl | exact absurd rfl other

/-- What a finished run makes of the entries other than the mask. -/
theorem update_entry_semantics (fault : Nat → Bool) (opts : Options)
    (entries : List AccessControlEntry) (file : FileAcls) (start : Nat)
    (distinct : Distinct Entry.key (file.get opts.type))
    (finished : (updateFile fault opts entries ⟨file, start⟩).1 = some ()) :
    let acl := file.get opts.type
    let after := (updateFile fault opts entries ⟨file, start⟩).2.state
    let result := after.get opts.type
    Distinct Entry.key result ∧
    (∀ type, type ≠ opts.type → after.get type = file.get type) ∧
    ∀ key : Tag × Nat, key.1 ≠ .mask →
      (opts.removeACL = false →
        (lookup Entry.key result key).map Entry.perms =
          match lastNamed entries key with
          | some ace => some (Perms.ofBits ace.perms)
          | none => (lookup Entry.key acl key).map Entry.perms) ∧
      (opts.removeACL = true →
        lookup Entry.key result key =
          if key ∈ entries.map AccessControlEntry.key then none
          else lookup Entry.key acl key) := by
  intro acl after result
  have stored : after = file.put opts.type (appliedAll opts acl entries) := by
    rcases update_file_outcome fault opts entries file start with
      ⟨_, _, stopped⟩ | ⟨ended, _⟩
    · simpa using stopped.state
    · rw [ended] at finished
      cases finished
  have reached : result = appliedAll opts acl entries := by
    change after.get opts.type = _
    rw [stored, get_put]
  rw [reached]
  refine ⟨distinct_applied_all opts entries acl distinct, ?_, ?_⟩
  · intro type other
    rw [stored, put_other file opts.type type _ other]
  · intro key unmasked
    refine ⟨fun modifying => ?_, fun removing =>
      lookup_removed_all opts entries acl key unmasked distinct removing⟩
    rw [lookup_modified_all opts entries acl key unmasked modifying]
    cases lastNamed entries key <;> rfl

-- acl_update -m u:1000:rw,u:1000:r on a minimal ACL.
theorem repeated_user_semantics :
    let file : FileAcls := ⟨minimalAcl, []⟩
    let entries : List AccessControlEntry := [⟨.user, 1000, 6⟩, ⟨.user, 1000, 4⟩]
    let out := updateFile (fun _ => false) ⟨false, true, false⟩ entries ⟨file, 0⟩
    out.1 = some () ∧ Distinct Entry.key out.2.state.access ∧
      (lookup Entry.key out.2.state.access (.user, 1000)).map Entry.perms =
        some (Perms.ofBits 4) := by
  have finished : (updateFile (fun _ => false) ⟨false, true, false⟩
      [⟨.user, 1000, 6⟩, ⟨.user, 1000, 4⟩] ⟨⟨minimalAcl, []⟩, 0⟩).1 = some () := by
    decide +kernel
  have semantics := update_entry_semantics (fun _ => false) ⟨false, true, false⟩
    [⟨.user, 1000, 6⟩, ⟨.user, 1000, 4⟩] ⟨minimalAcl, []⟩ 0
      (by unfold Distinct; decide) finished
  refine ⟨finished, semantics.1, ?_⟩
  have last := (semantics.2.2 (.user, 1000) (by decide)).1 rfl
  exact last.trans (by decide)

end Tlpi.AclUpdate

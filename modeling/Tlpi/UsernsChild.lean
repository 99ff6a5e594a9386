import Mathlib.Data.List.Induction
import Tlpi.CStrings
import Tlpi.DecimalText
import Tlpi.Transition

/-!
namespaces/userns_child_exec.c: a child in new namespaces executes a command after its parent has
written the maps of its user and group IDs. The child waits for the end of file on a pipe, which
its parent closes after that. Each call may fail, and either process may be killed.
-/

namespace Tlpi.UsernsChild

open CStrings (Str literal)
open DecimalText (decimal)

def CLONE_NEWNS : BitVec 32 := 0x00020000#32
def CLONE_NEWCGROUP : BitVec 32 := 0x02000000#32
def CLONE_NEWUTS : BitVec 32 := 0x04000000#32
def CLONE_NEWIPC : BitVec 32 := 0x08000000#32
def CLONE_NEWUSER : BitVec 32 := 0x10000000#32
def CLONE_NEWPID : BitVec 32 := 0x20000000#32
def CLONE_NEWNET : BitVec 32 := 0x40000000#32

def comma : UInt8 := 44
def newline : UInt8 := 10

/-! The command line. -/

structure Options where
  flags : BitVec 32
  verbose : Bool
  map_zero : Bool
  uid_map : Option Str
  gid_map : Option Str
  deny_setgroups : Bool

/-- An option with its argument, as `getopt` reports it; without a result there is `usage`. -/
def option (o : Options) : UInt8 × Str → Option Options
  | (opt, optarg) =>
      if opt = 67 then some { o with flags := o.flags ||| CLONE_NEWCGROUP }
      else if opt = 105 then some { o with flags := o.flags ||| CLONE_NEWIPC }
      else if opt = 109 then some { o with flags := o.flags ||| CLONE_NEWNS }
      else if opt = 110 then some { o with flags := o.flags ||| CLONE_NEWNET }
      else if opt = 112 then some { o with flags := o.flags ||| CLONE_NEWPID }
      else if opt = 117 then some { o with flags := o.flags ||| CLONE_NEWUTS }
      else if opt = 118 then some { o with verbose := true }
      else if opt = 122 then some { o with map_zero := true }
      else if opt = 77 then some { o with uid_map := some optarg }
      else if opt = 71 then some { o with gid_map := some optarg }
      else if opt = 68 then some { o with deny_setgroups := false }
      else if opt = 85 then some { o with flags := o.flags ||| CLONE_NEWUSER }
      else none

def nonsensical (o : Options) : Bool :=
  ((o.uid_map.isSome || o.gid_map.isSome || o.map_zero) && o.flags &&& CLONE_NEWUSER = 0) ||
    (o.map_zero && (o.uid_map.isSome || o.gid_map.isSome))

/-- The options that `main` goes on with. -/
def parse (given : List (UInt8 × Str)) (argv : List Str) : Option Options :=
  match given.foldlM option ⟨0, false, false, none, none, true⟩ with
  | none => none
  | some o => if nonsensical o ∨ argv = [] then none else some o

/-! The files that the parent writes. -/

structure Write where
  path : Str
  text : Str
  deriving DecidableEq

structure Setting where
  options : Options
  uid : Nat
  gid : Nat
  child_pid : Nat

def replaceComma (ch : UInt8) : UInt8 := if ch = comma then newline else ch

/-- A map that is asked for. -/
def mapping (map_zero : Bool) (given : Option Str) (id : Nat) : Option Str :=
  if map_zero then some (literal "0 " ++ decimal id ++ literal " 1") else given

section Writes
variable (setting : Setting)

def procFile (name : Str) : Str :=
  literal "/proc/" ++ decimal setting.child_pid ++ literal "/" ++ name

def update_map (name mapping : Str) : Write := ⟨procFile setting name, mapping.map replaceComma⟩

def proc_setgroups_write : Write := ⟨procFile setting (literal "setgroups"), literal "deny"⟩

def uidWrites : List Write :=
  match mapping setting.options.map_zero setting.options.uid_map setting.uid with
  | none => []
  | some text => [update_map setting (literal "uid_map") text]

def gidWrites : List Write :=
  match mapping setting.options.map_zero setting.options.gid_map setting.gid with
  | none => []
  | some text =>
      (if setting.options.deny_setgroups then [proc_setgroups_write setting] else []) ++
        [update_map setting (literal "gid_map") text]

def plan : List Write := uidWrites setting ++ gidWrites setting

end Writes

/-! The two processes. -/

inductive Parent where
  | clone
  | update (rest : List Write)
  | waitpid
  | exited (success : Bool)
  | killed
  deriving DecidableEq

inductive Child where
  | unborn
  | close
  | read
  | execvp
  | running
  | ended
  deriving DecidableEq

/-- `written` are the writes with whether they succeeded. -/
structure State where
  parent : Parent
  child : Child
  written : List (Write × Bool)
  executed : Bool
  deriving DecidableEq

inductive Choice where
  | parent (works : Bool)
  | child (works : Bool)
  | killParent
  | killChild
  deriving DecidableEq

/-- The parent holds the write end of the pipe. -/
def Parent.holds : Parent → Bool
  | .clone => true
  | .update _ => true
  | _ => false

section Program
variable (setting : Setting)

/-- A write that fails is only reported. After the last one the parent closes its write end. -/
def stepParent (works : Bool) (state : State) : Option State :=
  match state.parent with
  | .clone =>
      if works then some { state with parent := .update (plan setting), child := .close }
      else some { state with parent := .exited false }
  | .update [] => some { state with parent := .waitpid }
  | .update (write :: rest) =>
      some { state with parent := .update rest, written := state.written ++ [(write, works)] }
  | .waitpid => if state.child = .ended then some { state with parent := .exited true } else none
  | .exited _ => none
  | .killed => none

def stepChild (works : Bool) (state : State) : Option State :=
  match state.child with
  | .unborn => none
  | .close => some { state with child := .read }
  -- nobody writes to the pipe, so there is only its end of file to read
  | .read => if state.parent.holds then none else some { state with child := .execvp }
  | .execvp =>
      if works then some { state with child := .running, executed := true }
      else some { state with child := .ended }
  | .running => some { state with child := .ended }
  | .ended => none

def step : Choice → State → Option State
  | .parent works, state => stepParent setting works state
  | .child works, state => stepChild works state
  | .killParent, state =>
      match state.parent with
      | .exited _ => none
      | .killed => none
      | _ => some { state with parent := .killed }
  | .killChild, state =>
      match state.child with
      | .unborn => none
      | .ended => none
      | _ => some { state with child := .ended }

end Program

def start : State := ⟨.clone, .unborn, [], false⟩

/-! What is asked for. -/

/-- The records of a map are those between the commas. -/
theorem records_kept (text : Str) (plain : newline ∉ text) :
    (text.map replaceComma).splitOn newline = text.splitOn comma := by
  induction text with
  | nil => rfl
  | cons ch rest ih =>
      -- a newline of its own would cut a record
      have later := ih fun bad => plain (List.mem_cons_of_mem _ bad)
      have other : ch ≠ newline := fun same => plain (same ▸ List.mem_cons_self)
      rw [List.map_cons, List.splitOn, List.splitOn, List.splitOnP_cons_eq_if_modifyHead,
        List.splitOnP_cons_eq_if_modifyHead]
      rw [List.splitOn, List.splitOn] at later
      rw [later]
      by_cases separator : ch = comma
      · simp [replaceComma, separator]
      · simp [replaceComma, separator, other]

theorem paths_differ (setting : Setting) (one other : Str) (apart : one ≠ other) :
    procFile setting one ≠ procFile setting other := by
  intro same
  exact apart (List.append_cancel_left same)

/-- The argument of the last option with this letter. -/
def lastGiven (given : List (UInt8 × Str)) (letter : UInt8) : Option Str :=
  (given.reverse.find? (·.1 = letter)).map Prod.snd

@[simp] theorem last_given_append (given : List (UInt8 × Str)) (opt letter : UInt8)
    (optarg : Str) :
    lastGiven (given ++ [(opt, optarg)]) letter =
      if opt = letter then some optarg else lastGiven given letter := by
  unfold lastGiven
  rw [List.reverse_append, List.reverse_singleton, List.singleton_append, List.find?_cons]
  by_cases same : opt = letter <;> simp [same]

/-- The options hold what was said on the command line, the later over the earlier. -/
structure Said (given : List (UInt8 × Str)) (o : Options) : Prop where
  uid_map : o.uid_map = lastGiven given 77
  gid_map : o.gid_map = lastGiven given 71
  map_zero : o.map_zero = (lastGiven given 122).isSome
  deny_setgroups : o.deny_setgroups = (lastGiven given 68).isNone
  namespaces : o.flags &&& CLONE_NEWUSER ≠ 0 ↔ (lastGiven given 85).isSome = true

/-- Other namespaces leave that of the users as it is. -/
theorem other_flag (flags more : BitVec 32) (apart : more &&& CLONE_NEWUSER = 0) :
    (flags ||| more) &&& CLONE_NEWUSER = flags &&& CLONE_NEWUSER := by
  rw [BitVec.and_or_distrib_right, apart]
  exact BitVec.or_zero

theorem user_flag (flags : BitVec 32) : (flags ||| CLONE_NEWUSER) &&& CLONE_NEWUSER ≠ 0 := by
  intro none
  have bit := congrArg (BitVec.getLsbD · 28) none
  simp [CLONE_NEWUSER] at bit

/-- An option with another letter than those that `Said` is about. -/
theorem other_said (given : List (UInt8 × Str)) (o : Options) (opt : UInt8) (optarg : Str)
    (flags : BitVec 32) (verbose : Bool) (said : Said given o)
    (same : flags &&& CLONE_NEWUSER = o.flags &&& CLONE_NEWUSER)
    (other : opt ≠ 77 ∧ opt ≠ 71 ∧ opt ≠ 122 ∧ opt ≠ 68 ∧ opt ≠ 85) :
    Said (given ++ [(opt, optarg)]) { o with flags := flags, verbose := verbose } := by
  obtain ⟨notM, notG, notZ, notD, notU⟩ := other
  refine ⟨?_, ?_, ?_, ?_, ?_⟩
  · rw [last_given_append, if_neg notM]
    exact said.uid_map
  · rw [last_given_append, if_neg notG]
    exact said.gid_map
  · rw [last_given_append, if_neg notZ]
    exact said.map_zero
  · rw [last_given_append, if_neg notD]
    exact said.deny_setgroups
  · rw [last_given_append, if_neg notU, same]
    exact said.namespaces

theorem option_said (given : List (UInt8 × Str)) (o after : Options) (item : UInt8 × Str)
    (said : Said given o) (taken : option o item = some after) : Said (given ++ [item]) after := by
  obtain ⟨opt, optarg⟩ := item
  have flagged (more : BitVec 32) (apart : more &&& CLONE_NEWUSER = 0)
      (other : opt ≠ 77 ∧ opt ≠ 71 ∧ opt ≠ 122 ∧ opt ≠ 68 ∧ opt ≠ 85) :
      Said (given ++ [(opt, optarg)]) { o with flags := o.flags ||| more } :=
    other_said given o opt optarg _ _ said (other_flag o.flags more apart) other
  obtain ⟨uid_map, gid_map, map_zero, deny_setgroups, namespaces⟩ := id said
  rw [option] at taken
  by_cases letter : opt = 67
  · rw [if_pos letter] at taken
    cases taken
    exact flagged CLONE_NEWCGROUP (by decide) (letter ▸ by decide)
  rw [if_neg letter] at taken
  by_cases letter : opt = 105
  · rw [if_pos letter] at taken
    cases taken
    exact flagged CLONE_NEWIPC (by decide) (letter ▸ by decide)
  rw [if_neg letter] at taken
  by_cases letter : opt = 109
  · rw [if_pos letter] at taken
    cases taken
    exact flagged CLONE_NEWNS (by decide) (letter ▸ by decide)
  rw [if_neg letter] at taken
  by_cases letter : opt = 110
  · rw [if_pos letter] at taken
    cases taken
    exact flagged CLONE_NEWNET (by decide) (letter ▸ by decide)
  rw [if_neg letter] at taken
  by_cases letter : opt = 112
  · rw [if_pos letter] at taken
    cases taken
    exact flagged CLONE_NEWPID (by decide) (letter ▸ by decide)
  rw [if_neg letter] at taken
  by_cases letter : opt = 117
  · rw [if_pos letter] at taken
    cases taken
    exact flagged CLONE_NEWUTS (by decide) (letter ▸ by decide)
  rw [if_neg letter] at taken
  by_cases letter : opt = 118
  · rw [if_pos letter] at taken
    cases taken
    exact other_said given o opt optarg _ _ said rfl (letter ▸ by decide)
  rw [if_neg letter] at taken
  by_cases letter : opt = 122
  · rw [if_pos letter] at taken
    cases taken
    subst letter
    exact ⟨by simpa, by simpa, by simp, by simpa, by simpa⟩
  rw [if_neg letter] at taken
  by_cases letter : opt = 77
  · rw [if_pos letter] at taken
    cases taken
    subst letter
    exact ⟨by simp, by simpa, by simpa, by simpa, by simpa⟩
  rw [if_neg letter] at taken
  by_cases letter : opt = 71
  · rw [if_pos letter] at taken
    cases taken
    subst letter
    exact ⟨by simpa, by simp, by simpa, by simpa, by simpa⟩
  rw [if_neg letter] at taken
  by_cases letter : opt = 68
  · rw [if_pos letter] at taken
    cases taken
    subst letter
    exact ⟨by simpa, by simpa, by simpa, by simp, by simpa⟩
  rw [if_neg letter] at taken
  by_cases letter : opt = 85
  · rw [if_pos letter] at taken
    cases taken
    subst letter
    exact ⟨by simpa, by simpa, by simpa, by simpa, by simpa using user_flag o.flags⟩
  rw [if_neg letter] at taken
  cases taken

theorem options_said (given : List (UInt8 × Str)) (o : Options)
    (taken : given.foldlM option ⟨0, false, false, none, none, true⟩ = some o) :
    Said given o := by
  induction given using List.reverseRecOn generalizing o with
  | nil =>
      cases taken
      exact ⟨rfl, rfl, rfl, rfl, by decide⟩
  | append_singleton given item ih =>
      rw [List.foldlM_append] at taken
      obtain ⟨before, earlier, last⟩ := Option.bind_eq_some_iff.mp taken
      rw [List.foldlM_cons] at last
      obtain ⟨after, one, same⟩ := Option.bind_eq_some_iff.mp last
      obtain rfl := Option.some.inj same
      exact option_said given before after item (ih before earlier) one

theorem parse_some (given : List (UInt8 × Str)) (argv : List Str) (o : Options)
    (accepted : parse given argv = some o) : Said given o ∧ nonsensical o = false := by
  unfold parse at accepted
  split at accepted
  · cases accepted
  · next said =>
      split at accepted
      · cases accepted
      · next fine =>
        cases accepted
        exact ⟨options_said given o said, Bool.eq_false_iff.mpr fun bad => fine (.inl bad)⟩

/-- The map that the command line asks for, by -z (122) or by the option with this letter. -/
def wanted (given : List (UInt8 × Str)) (letter : UInt8) (id : Nat) : Option Str :=
  mapping (lastGiven given 122).isSome (lastGiven given letter) id

theorem wanted_given (given : List (UInt8 × Str)) (letter : UInt8) (id : Nat) :
    (wanted given letter id).isSome = true ↔ lastGiven given 122 ≠ none ∨
      lastGiven given letter ≠ none := by
  unfold wanted mapping
  cases lastGiven given 122 <;> simp [Option.isSome_iff_ne_none]

section Plan
variable (given : List (UInt8 × Str)) (setting : Setting) (said : Said given setting.options)
include said

theorem uid_writes_wanted : uidWrites setting =
    ((wanted given 77 setting.uid).map (update_map setting (literal "uid_map"))).toList := by
  rw [uidWrites, said.map_zero, said.uid_map, wanted]
  split
  · next none => rw [none, Option.map_none, Option.toList_none]
  · next text asked => rw [asked, Option.map_some, Option.toList_some]

theorem gid_writes_wanted : gidWrites setting =
    match wanted given 71 setting.gid with
    | none => []
    | some text => (if lastGiven given 68 = none then [proc_setgroups_write setting] else []) ++
        [update_map setting (literal "gid_map") text] := by
  rw [gidWrites, said.map_zero, said.gid_map, said.deny_setgroups, wanted]
  simp only [Option.isNone_iff_eq_none]

/-- Without a map that is asked for nothing is written. -/
theorem plan_wanted (sense : nonsensical setting.options = false) (some_ : plan setting ≠ []) :
    (lastGiven given 85).isSome = true := by
  simp only [nonsensical, Bool.or_eq_false_iff, Bool.and_eq_false_iff,
    decide_eq_false_iff_not] at sense
  refine said.namespaces.mp (sense.1.resolve_left ?_)
  rintro ⟨⟨uid, gid⟩, zero⟩
  refine some_ ?_
  rw [Option.isSome_eq_false_iff, Option.isNone_iff_eq_none] at uid gid
  simp [plan, uidWrites, gidWrites, mapping, uid, gid, zero]

end Plan

/-- What an accepted command line has written, where 77 is M, 71 is G, 68 is D and 85 is U, and
the last of several such options counts. Maps are written only for a new user namespace (-U). The
map of the users comes first and that of the groups last, with "deny" before it unless -D is
given; the records between the commas are the lines of the file. -/
theorem asked_maps_are_written (given : List (UInt8 × Str)) (argv : List Str) (setting : Setting)
    (accepted : parse given argv = some setting.options) :
    (plan setting ≠ [] → (lastGiven given 85).isSome = true) ∧
      (∀ text, wanted given 77 setting.uid = some text → ∃ later,
        plan setting = ⟨procFile setting (literal "uid_map"), text.map replaceComma⟩ ::
          later) ∧
      (∀ text, wanted given 71 setting.gid = some text → ∃ earlier,
        plan setting = earlier ++ (if lastGiven given 68 = none then
          [proc_setgroups_write setting] else []) ++
          [⟨procFile setting (literal "gid_map"), text.map replaceComma⟩] ∧
        ∀ write ∈ earlier, write.path = procFile setting (literal "uid_map")) ∧
      (proc_setgroups_write setting ∈ plan setting ↔
        (lastGiven given 122 ≠ none ∨ lastGiven given 71 ≠ none) ∧
        lastGiven given 68 = none) ∧
      ∀ text : Str, newline ∉ text →
        (text.map replaceComma).splitOn newline = text.splitOn comma := by
  obtain ⟨said, sense⟩ := parse_some given argv setting.options accepted
  have users := uid_writes_wanted given setting said
  have groups := gid_writes_wanted given setting said
  have first : ∀ write ∈ uidWrites setting,
      write.path = procFile setting (literal "uid_map") := by
    intro write member
    rw [users, Option.mem_toList, Option.map_eq_some_iff] at member
    obtain ⟨text, _, rfl⟩ := member
    rfl
  have apart : proc_setgroups_write setting ∉ uidWrites setting := fun member =>
    paths_differ setting (literal "setgroups") (literal "uid_map") (by decide) (first _ member)
  refine ⟨plan_wanted given setting said sense, fun text asked => ?_, fun text asked => ?_,
    ?_, records_kept⟩
  · rw [asked] at users
    exact ⟨gidWrites setting, by rw [plan, users]; rfl⟩
  · rw [asked] at groups
    exact ⟨uidWrites setting, by rw [plan, groups, ← List.append_assoc]; rfl, first⟩
  · rw [plan, List.mem_append, or_iff_right apart, groups, ← wanted_given given 71 setting.gid]
    cases wanted given 71 setting.gid with
    | none => simp
    | some text =>
        have other : proc_setgroups_write setting ≠ update_map setting (literal "gid_map") text :=
          fun same =>
            paths_differ setting (literal "setgroups") (literal "gid_map") (by decide)
              (congrArg Write.path same)
        by_cases allowed : lastGiven given 68 = none <;> simp [allowed, other]

/-- `-U -G 7 -M '0 1000 1,1 5000 9' -G '0 100 1' sh`. -/
theorem two_records_are_written : ∃ o,
    parse [(85, []), (71, [55]), (77, literal "0 1000 1,1 5000 9"), (71, literal "0 100 1")]
      [literal "sh"] = some o ∧
      ∃ later, plan ⟨o, 1000, 100, 4711⟩ =
        ⟨literal "/proc/4711/uid_map", literal "0 1000 1\n1 5000 9"⟩ :: later ∧
        ∃ earlier, plan ⟨o, 1000, 100, 4711⟩ =
          earlier ++ [⟨literal "/proc/4711/setgroups", literal "deny"⟩] ++
          [⟨literal "/proc/4711/gid_map", literal "0 100 1"⟩] := by
  refine ⟨_, rfl, ?_⟩
  obtain ⟨_, users, groups, _⟩ := asked_maps_are_written
    [(85, []), (71, [55]), (77, literal "0 1000 1,1 5000 9"), (71, literal "0 100 1")]
      [literal "sh"]
    ⟨_, 1000, 100, 4711⟩ rfl
  obtain ⟨later, first⟩ := users (literal "0 1000 1,1 5000 9") (by decide)
  obtain ⟨earlier, last, _⟩ := groups (literal "0 100 1") (by decide)
  exact ⟨later, first, earlier, last⟩

/-! The order of the two processes. -/

section Runs
variable (setting : Setting)

/-- A child that has gone on while the parent holds the pipe has not got so far as to execute. -/
def Child.waits : Child → Prop
  | .close => True
  | .read => True
  | .ended => True
  | _ => False

def Fits (state : State) : Prop :=
  match state.parent with
  | .clone => state.child = .unborn ∧ state.written = [] ∧ state.executed = false
  | .update rest => state.written.map Prod.fst ++ rest = plan setting ∧ state.child.waits ∧
      state.executed = false
  | .waitpid => state.written.map Prod.fst = plan setting ∧ state.child ≠ .unborn
  | .exited true => state.written.map Prod.fst = plan setting ∧ state.child = .ended
  | .exited false => state.child = .unborn ∧ state.written = [] ∧ state.executed = false
  | .killed => (state.written.map Prod.fst) <+: plan setting

theorem start_fits : Fits setting start := ⟨rfl, rfl, rfl⟩

theorem parent_fits (works : Bool) (before after : State) (fits : Fits setting before)
    (taken : stepParent setting works before = some after) : Fits setting after := by
  unfold stepParent at taken
  split at taken
  · next place =>
    simp only [Fits, place] at fits
    split at taken
    · cases taken
      refine ⟨?_, trivial, fits.2.2⟩
      simp only [fits.2.1, List.map_nil, List.nil_append]
    · cases taken
      exact fits
  · next place =>
    simp only [Fits, place] at fits
    cases taken
    obtain ⟨written, waits, _⟩ := fits
    refine ⟨(List.append_nil _).symm.trans written, fun unborn => ?_⟩
    rw [unborn] at waits
    exact waits
  · next write rest place =>
    simp only [Fits, place] at fits
    cases taken
    refine ⟨?_, fits.2⟩
    rw [List.map_append, List.append_assoc]
    exact fits.1
  · next place =>
    simp only [Fits, place] at fits
    split at taken
    · next ended =>
      cases taken
      exact ⟨fits.1, ended⟩
    · cases taken
  · cases taken
  · cases taken

/-- Once it is there the child stays so, and it goes on from its `read` only when the pipe is
closed. -/
theorem child_moves (works : Bool) (before after : State)
    (taken : stepChild works before = some after) :
    before.child ≠ .unborn ∧ before.child ≠ .ended ∧ after.child ≠ .unborn ∧
      after.parent = before.parent ∧
      after.written = before.written ∧ (before.parent.holds = true → before.child.waits →
        after.child.waits ∧ after.executed = before.executed) := by
  unfold stepChild at taken
  split at taken
  · cases taken
  · next place =>
    cases taken
    simp [place, Child.waits]
  · next place =>
    split at taken
    · cases taken
    · next closed =>
      cases taken
      simp [place, closed]
  · next place => split at taken <;> cases taken <;> simp [place, Child.waits]
  · next place =>
    cases taken
    simp [place, Child.waits]
  · cases taken

theorem child_fits (works : Bool) (before after : State) (fits : Fits setting before)
    (taken : stepChild works before = some after) : Fits setting after := by
  obtain ⟨born, alive, later, parent, written, waiting⟩ := child_moves works before after taken
  unfold Fits at fits ⊢
  rw [parent, written]
  split at fits
  · exact absurd fits.1 born
  · next rest place =>
    -- the pipe is still open, so the child waits on or has ended
    obtain ⟨waits, same⟩ := waiting (by rw [place]; rfl) fits.2.1
    exact ⟨fits.1, waits, same.trans fits.2.2⟩
  · exact ⟨fits.1, later⟩
  · exact absurd fits.2 alive
  · exact absurd fits.1 born
  · exact fits

theorem step_fits (choice : Choice) (before after : State) (fits : Fits setting before)
    (taken : step setting choice before = some after) : Fits setting after := by
  cases choice with
  | parent works => exact parent_fits setting works before after fits taken
  | child works => exact child_fits setting works before after fits taken
  | killParent =>
      simp only [step] at taken
      unfold Fits at fits
      cases place : before.parent with
      | clone =>
          simp only [place] at taken fits
          cases taken
          simp [Fits, fits.2.1]
      | update rest =>
          simp only [place] at taken fits
          cases taken
          exact ⟨rest, fits.1⟩
      | waitpid =>
          simp only [place] at taken fits
          cases taken
          exact ⟨[], (List.append_nil _).trans fits.1⟩
      | exited => simp only [place, reduceCtorEq] at taken
      | killed => simp only [place, reduceCtorEq] at taken
  | killChild =>
      simp only [step] at taken
      split at taken
      · cases taken
      · cases taken
      · next born alive =>
        cases taken
        unfold Fits at fits ⊢
        dsimp only
        split at fits
        · exact absurd fits.1 born
        · exact ⟨fits.1, trivial, fits.2.2⟩
        · exact ⟨fits.1, fun bad => by cases bad⟩
        · exact absurd fits.2 alive
        · exact absurd fits.1 born
        · exact fits

/-! The processes come to an end. -/

def Parent.weight : Parent → Nat
  | .clone => 8
  | .update rest => rest.length + 2
  | .waitpid => 1
  | .exited _ => 0
  | .killed => 0

def Child.weight : Child → Nat
  | .unborn => 0
  | .close => 4
  | .read => 3
  | .execvp => 2
  | .running => 1
  | .ended => 0

def rank (state : State) : Nat :=
  state.parent.weight + state.child.weight +
    if state.parent = .clone then (plan setting).length else 0

theorem child_lowers (works : Bool) (before after : State)
    (taken : stepChild works before = some after) :
    after.parent = before.parent ∧ after.child.weight < before.child.weight := by
  unfold stepChild at taken
  split at taken
  · cases taken
  · next place =>
    cases taken
    simp [place, Child.weight]
  · next place =>
    split at taken
    · cases taken
    · cases taken
      simp [place, Child.weight]
  · next place => split at taken <;> cases taken <;> simp [place, Child.weight]
  · next place =>
    cases taken
    simp [place, Child.weight]
  · cases taken

theorem parent_lowers (works : Bool) (before after : State) (fits : Fits setting before)
    (taken : stepParent setting works before = some after) :
    rank setting after < rank setting before := by
  unfold stepParent at taken
  split at taken
  · next place =>
    simp only [Fits, place] at fits
    split at taken <;> cases taken <;> simp [rank, place, fits.1, Parent.weight, Child.weight]
    omega
  · next place =>
    cases taken
    simp [rank, place, Parent.weight]
  · next place =>
    cases taken
    simp [rank, place, Parent.weight]
  · next place =>
    split at taken
    · cases taken
      simp [rank, place, Parent.weight]
    · cases taken
  · cases taken
  · cases taken

theorem step_lowers (choice : Choice) (before after : State) (fits : Fits setting before)
    (taken : step setting choice before = some after) :
    rank setting after < rank setting before := by
  cases choice with
  | parent works => exact parent_lowers setting works before after fits taken
  | child works =>
      obtain ⟨parent, lower⟩ := child_lowers works before after taken
      unfold rank
      rw [parent]
      omega
  | killParent =>
      simp only [step] at taken
      split at taken
      · cases taken
      · cases taken
      · next running alive =>
        cases taken
        cases place : before.parent with
        | exited success => exact absurd place (running success)
        | killed => exact absurd place alive
        | clone =>
            simp [rank, place, Parent.weight]
            omega
        | update rest => simp [rank, place, Parent.weight]
        | waitpid => simp [rank, place, Parent.weight]
  | killChild =>
      simp only [step] at taken
      split at taken
      · cases taken
      · cases taken
      · next born alive =>
        cases taken
        have lower : Child.weight .ended < before.child.weight := by
          cases place : before.child with
          | unborn => exact absurd place born
          | ended => exact absurd place alive
          | _ => decide
        simp only [rank]
        omega

theorem rank_bounded (state : State) (fits : Fits setting state) :
    rank setting state ≤ (plan setting).length + 8 := by
  have own : state.child.weight ≤ 4 := by
    unfold Child.weight
    split <;> omega
  unfold Fits at fits
  unfold rank
  split at fits
  · next place =>
    simp only [place, fits.1, Parent.weight, Child.weight, ↓reduceIte]
    omega
  · next rest place =>
    have parts := congrArg List.length fits.1
    rw [List.length_append] at parts
    simp only [place, Parent.weight, reduceCtorEq, ↓reduceIte]
    omega
  · next place =>
    simp only [place, Parent.weight, reduceCtorEq, ↓reduceIte]
    omega
  · next place =>
    simp only [place, Parent.weight, reduceCtorEq, ↓reduceIte]
    omega
  · next place =>
    simp only [place, Parent.weight, reduceCtorEq, ↓reduceIte]
    omega
  · next place =>
    simp only [place, Parent.weight, reduceCtorEq, ↓reduceIte]
    omega

/-- Where neither process can go on, the parent has ended. -/
theorem stuck_ended (state : State) (fits : Fits setting state)
    (parent : ∀ works, stepParent setting works state = none)
    (child : ∀ works, stepChild works state = none) :
    state.parent = .killed ∨ state.parent = .exited false ∨
      (state.parent = .exited true ∧ state.child = .ended ∧ state.written.map Prod.fst =
        plan setting) := by
  have own := parent true
  unfold Fits at fits
  unfold stepParent at own
  split at own
  · cases own
  · cases own
  · cases own
  · next place =>
    simp only [place] at fits
    split at own
    · cases own
    · next alive =>
      have other := child true
      unfold stepChild at other
      split at other
      · next unborn => exact absurd unborn fits.2
      · cases other
      · -- the parent has closed the pipe by now
        simp [place, Parent.holds] at other
      · cases other
      · cases other
      · next ended => exact absurd ended alive
  · next success place =>
    simp only [place] at fits
    cases success with
    | true => exact .inr (.inr ⟨place, fits.2, fits.1⟩)
    | false => exact .inr (.inl place)
  · next place => exact .inl place

/-- The command is executed only when the parent has written all maps that are asked for, or has
been killed, as that closes the pipe as well. A parent that is not killed waits for its child to
the end. -/
theorem maps_are_written_first (state : State)
    (reached : Transition.Reachable (· = start) (step setting) state) :
    (state.written.map Prod.fst) <+: plan setting ∧
      (state.executed = true → state.parent = .killed ∨
        state.written.map Prod.fst = plan setting) ∧
      ((∀ works, stepParent setting works state = none) →
        (∀ works, stepChild works state = none) →
        state.parent = .killed ∨ state.parent = .exited false ∨
          (state.parent = .exited true ∧ state.child = .ended ∧
            state.written.map Prod.fst = plan setting)) ∧
      ∀ choices after, Transition.replay (step setting) choices state = some after →
        choices.length ≤ (plan setting).length + 8 := by
  have fits : Fits setting state :=
    Transition.reachable_invariant (fun _ here => here ▸ start_fits setting)
      (step_fits setting) reached
  refine ⟨?_, fun executed => ?_, stuck_ended setting state fits,
    fun choices after replayed => ?_⟩
  · unfold Fits at fits
    split at fits
    · rw [fits.2.1]
      exact List.nil_prefix
    · exact ⟨_, fits.1⟩
    · exact fits.1 ▸ List.prefix_rfl
    · exact fits.1 ▸ List.prefix_rfl
    · rw [fits.2.1]
      exact List.nil_prefix
    · exact fits
  · unfold Fits at fits
    split at fits
    · exact absurd executed (by simp [fits.2.2])
    · exact absurd executed (by simp [fits.2.2])
    · exact .inr fits.1
    · exact .inr fits.1
    · exact absurd executed (by simp [fits.2.2])
    · next place => exact .inl place
  · have bounded := Transition.choices_bounded_within (step setting) (rank setting) (Fits setting)
      (step_fits setting) (step_lowers setting) choices fits replayed
    exact bounded.trans (rank_bounded setting state fits)

end Runs

/-- `-U -z`, where the parent is killed before it writes a map. -/
def mappedRoot : Setting :=
  ⟨⟨CLONE_NEWUSER, false, true, none, none, true⟩, 1000, 100, 4711⟩

/-- The command is executed all the same. -/
theorem killed_parent_leaves_no_map : ∃ state,
    Transition.replay (step mappedRoot) [.parent true, .child true, .killParent, .child true,
      .child true] start =
      some state ∧ state.executed = true ∧ state.written = [] ∧ state.parent = .killed := by
  refine ⟨_, rfl, rfl, rfl, ?_⟩
  have either := (maps_are_written_first mappedRoot _ (Transition.replay_reachable
    [.parent true, .child true, .killParent, .child true, .child true] (.start rfl) rfl)).2.1 rfl
  exact either.resolve_right fun all => absurd (congrArg List.length all) (by decide)

end Tlpi.UsernsChild

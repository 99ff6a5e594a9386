import Mathlib.Data.BitVec
import Mathlib.Data.List.Basic
import Tlpi.CStrings
import Tlpi.Transition

/-!
tty/test_tty_functions.c and tty_functions.c: a program that changes the settings of its
terminal, and puts back those of the user whenever a signal stops or ends it. A signal may
come between any two calls, also while the handler of another one is active; while the
program is stopped the user may change the settings. The calls on the terminal succeed, and a
stopped program is continued in the foreground.
-/

namespace Tlpi.TerminalModes

open CStrings (Str)

structure Termios where
  c_iflag : BitVec 32
  c_oflag : BitVec 32
  c_cflag : BitVec 32
  c_lflag : BitVec 32
  vmin : UInt8
  vtime : UInt8
  deriving DecidableEq

/-! Bits of `c_iflag`, of `c_oflag` and of `c_lflag`. -/

def IGNBRK : BitVec 32 := 0x1#32
def BRKINT : BitVec 32 := 0x2#32
def PARMRK : BitVec 32 := 0x8#32
def INPCK : BitVec 32 := 0x10#32
def ISTRIP : BitVec 32 := 0x20#32
def INLCR : BitVec 32 := 0x40#32
def IGNCR : BitVec 32 := 0x80#32
def ICRNL : BitVec 32 := 0x100#32
def IXON : BitVec 32 := 0x400#32

def OPOST : BitVec 32 := 0x1#32

def ISIG : BitVec 32 := 0x1#32
def ICANON : BitVec 32 := 0x2#32
def ECHO : BitVec 32 := 0x8#32
def IEXTEN : BitVec 32 := 0x8000#32

/-- The settings that `ttySetCbreak` makes of `t`. -/
def ttySetCbreak (t : Termios) : Termios :=
  { t with
    c_lflag := (t.c_lflag &&& ~~~(ICANON ||| ECHO)) ||| ISIG
    c_iflag := t.c_iflag &&& ~~~ICRNL
    vmin := 1
    vtime := 0 }

def ttySetRaw (t : Termios) : Termios :=
  { t with
    c_lflag := t.c_lflag &&& ~~~(ICANON ||| ISIG ||| IEXTEN ||| ECHO)
    c_iflag := t.c_iflag &&&
      ~~~(BRKINT ||| ICRNL ||| IGNBRK ||| IGNCR ||| INLCR ||| INPCK ||| ISTRIP ||| IXON ||| PARMRK)
    c_oflag := t.c_oflag &&& ~~~OPOST
    vmin := 1
    vtime := 0 }

inductive Signal where
  | SIGINT
  | SIGQUIT
  | SIGTERM
  | SIGTSTP
  deriving DecidableEq

inductive Disposition where
  | SIG_IGN
  | SIG_DFL
  | handler
  | tstpHandler
  deriving DecidableEq

/-- The next call of `main`; those before `read` set the terminal and the handlers up. -/
inductive MainPlace where
  | ttySet
  | sigquit
  | sigint
  | sigtstp
  | sigterm
  | read
  | tcsetattr
  | exit
  deriving DecidableEq

/-- The next call of `tstpHandler`. -/
inductive TstpPlace where
  | saveOurs
  | restoreUser
  | signalDefault
  | raise
  | unblock
  | reblock
  | reestablish
  | saveUser
  | restoreOurs
  deriving DecidableEq

/-- A handler that is active, with its local variables. -/
inductive Code where
  | handler (restored : Bool)
  | tstpHandler (place : TstpPlace) (ourTermios : Termios) (prevMask : List Signal)
  deriving DecidableEq

/-- `mask` is in force again when the handler returns. -/
structure Frame where
  code : Code
  mask : List Signal
  deriving DecidableEq

inductive End where
  | exited
  | killed (sig : Signal)
  deriving DecidableEq

/-- `established` are the settings that the user has made, the newest first. -/
structure State where
  cbreak : Bool
  tty : Termios
  userTermios : Termios
  main : MainPlace
  frames : List Frame
  disposition : Signal → Disposition
  mask : List Signal
  pending : List Signal
  stopped : Bool
  ended : Option End
  input : List UInt8
  stdout : Str
  established : List Termios

inductive Choice where
  | act
  | signal (sig : Signal)
  | deliver (sig : Signal)
  | cont
  | setTty (t : Termios)
  | type (ch : UInt8)
  | hangup
  deriving DecidableEq

/-- `tcsetattr` with TCSAFLUSH, which drops what has been typed. -/
def tcsetattr (t : Termios) (state : State) : State := { state with tty := t, input := [] }

def sigaction (sig : Signal) (disposition : Disposition) (state : State) : State :=
  { state with
    disposition := fun other => if other = sig then disposition else state.disposition other }

/-- A handler is set up only for a signal that is not ignored. -/
def establish (sig : Signal) (disposition : Disposition) (state : State) : State :=
  if state.disposition sig ≠ .SIG_IGN then sigaction sig disposition state else state

def isalpha (ch : UInt8) : Bool := (65 ≤ ch && ch ≤ 90) || (97 ≤ ch && ch ≤ 122)
def tolower (ch : UInt8) : UInt8 := if 65 ≤ ch ∧ ch ≤ 90 then ch + 32 else ch
def iscntrl (ch : UInt8) : Bool := ch < 32 || ch = 127

def echoed (ch : UInt8) : Str :=
  if isalpha ch then [tolower ch]
  else if ch = 10 ∨ ch = 13 then [ch]
  else if iscntrl ch then [94, ch ^^^ 64]
  else [42]

def stepMain (state : State) : Option State :=
  match state.main with
  | .ttySet =>
      if state.cbreak then
        some { tcsetattr (ttySetCbreak state.tty) state with
          userTermios := state.tty, main := .sigquit }
      else some { tcsetattr (ttySetRaw state.tty) state with
        userTermios := state.tty, main := .sigterm }
  | .sigquit => some { establish .SIGQUIT .handler state with main := .sigint }
  | .sigint => some { establish .SIGINT .handler state with main := .sigtstp }
  | .sigtstp => some { establish .SIGTSTP .tstpHandler state with main := .sigterm }
  | .sigterm => some { sigaction .SIGTERM .handler state with main := .read }
  | .read =>
      match state.input with
      | [] => none
      | ch :: rest =>
          some { state with
            input := rest
            stdout := state.stdout ++ echoed ch
            main := if ch = 113 then .tcsetattr else .read }
  | .tcsetattr => some { tcsetattr state.userTermios state with main := .exit }
  | .exit => some { state with ended := some .exited }

/-- `frame` is the active one of `state`, over `below`. -/
def stepHandler (state : State) (below : List Frame) (mask : List Signal)
    (restored : Bool) : State :=
  if restored then { state with ended := some .exited }
  else { tcsetattr state.userTermios state with frames := ⟨.handler true, mask⟩ :: below }

def stepTstpHandler (state : State) (below : List Frame) (mask : List Signal) (place : TstpPlace)
    (ourTermios : Termios) (prevMask : List Signal) : State :=
  let goOn (next : TstpPlace) := ⟨.tstpHandler next ourTermios prevMask, mask⟩ :: below
  match place with
  | .saveOurs =>
      { state with frames := ⟨.tstpHandler .restoreUser state.tty prevMask, mask⟩ :: below }
  | .restoreUser => { tcsetattr state.userTermios state with frames := goOn .signalDefault }
  | .signalDefault => { sigaction .SIGTSTP .SIG_DFL state with frames := goOn .raise }
  | .raise => { state with pending := .SIGTSTP :: state.pending, frames := goOn .unblock }
  | .unblock =>
      { state with
        mask := state.mask.filter (· ≠ .SIGTSTP)
        frames := ⟨.tstpHandler .reblock ourTermios state.mask, mask⟩ :: below }
  | .reblock => { state with mask := prevMask, frames := goOn .reestablish }
  | .reestablish => { sigaction .SIGTSTP .tstpHandler state with frames := goOn .saveUser }
  | .saveUser => { state with userTermios := state.tty, frames := goOn .restoreOurs }
  | .restoreOurs => { tcsetattr ourTermios state with frames := below, mask := mask }

/-- A signal that is pending and not blocked comes before the next call. -/
def State.interrupted (state : State) : Bool := state.pending.any (· ∉ state.mask)

def act (state : State) : Option State :=
  if state.interrupted then none
  else
    match state.frames with
    | [] => stepMain state
    | ⟨.handler restored, mask⟩ :: below => some (stepHandler state below mask restored)
    | ⟨.tstpHandler place ourTermios prevMask, mask⟩ :: below =>
        some (stepTstpHandler state below mask place ourTermios prevMask)

/-- The start of a handler, in which its own signal is blocked. -/
def enter (sig : Signal) (code : Code) (state : State) : State :=
  { state with frames := ⟨code, state.mask⟩ :: state.frames, mask := sig :: state.mask }

def deliver (sig : Signal) (state : State) : State :=
  let state := { state with pending := state.pending.filter (· ≠ sig) }
  match state.disposition sig with
  | .SIG_IGN => state
  | .SIG_DFL => if sig = .SIGTSTP then { state with stopped := true } else
      { state with ended := some (.killed sig) }
  | .handler => enter sig (.handler false) state
  | .tstpHandler => enter sig (.tstpHandler .saveOurs state.tty []) state

def step (choice : Choice) (state : State) : Option State :=
  if state.ended ≠ none then none
  else
    match choice with
    | .act => if state.stopped then none else act state
    | .signal sig =>
        if state.disposition sig = .SIG_IGN then none
        else some { state with pending := sig :: state.pending }
    | .deliver sig =>
        if state.stopped = false ∧ sig ∈ state.pending ∧ sig ∉ state.mask then
          some (deliver sig state)
        else none
    -- SIGCONT, which also throws away a pending SIGTSTP
    | .cont =>
        some { state with stopped := false, pending := state.pending.filter (· ≠ .SIGTSTP) }
    | .setTty t =>
        if state.stopped then
          some { state with tty := t, established := t :: state.established }
        else none
    | .type ch => some { state with input := state.input ++ [ch] }
    | .hangup =>
        if state.main = .read ∧ state.frames = [] ∧ state.stopped = false ∧
          state.interrupted = false then
          some { state with main := .tcsetattr }
        else none

/-- `ignored` says which signals the program starts with ignored. -/
def start (cbreak : Bool) (ignored : Signal → Bool) (initial unset : Termios) : State :=
  ⟨cbreak, initial, unset, .ttySet, [], fun sig => if ignored sig then .SIG_IGN else .SIG_DFL,
    [], [], false, none, [], [], [initial]⟩

def MainPlace.ready : MainPlace → Bool
  | .read | .tcsetattr | .exit => true
  | _ => false

/-- No signal comes before the handlers are set up, and in raw mode none but SIGTERM. -/
def calm (choice : Choice) (state : State) : Bool :=
  match choice with
  | .signal sig => state.main.ready && (state.cbreak || sig = .SIGTERM)
  | _ => true

/-! The settings, as the active handlers keep them. -/

def TstpPlace.clean : TstpPlace → Bool
  | .saveOurs | .restoreUser => false
  | _ => true

/-- A handler between its call that restores the user's settings and one that undoes this. -/
def Code.clean : Code → Bool
  | .handler restored => restored
  | .tstpHandler place _ _ => place.clean

def Code.tstp : Code → Bool
  | .handler _ => false
  | .tstpHandler _ _ _ => true

def clean (main : MainPlace) (frames : List Frame) : Bool :=
  main = .exit || frames.any (·.code.clean)

/-- Some code that will not return has restored the user's settings. -/
def final (main : MainPlace) (frames : List Frame) : Bool :=
  main = .exit || frames.any (·.code = .handler true)

/-- What `tstpHandler` has saved to put it back. -/
def Kept (own : Termios) (established : List Termios) (main : MainPlace) : List Frame → Prop
  | [] => True
  | ⟨.handler _, _⟩ :: below => Kept own established main below
  | ⟨.tstpHandler place ourTermios _, _⟩ :: below =>
      (∀ frame ∈ below, frame.code.tstp = false) ∧
        (place ≠ .saveOurs → if final main below then ourTermios ∈ established
          else ourTermios = own) ∧
        Kept own established main below

structure Settings (own : Termios) (main : MainPlace) (frames : List Frame)
    (tty userTermios : Termios) (established : List Termios) : Prop where
  user : userTermios ∈ established
  theirs : clean main frames = true → tty ∈ established
  ours : clean main frames = false → tty = own
  kept : Kept own established main frames

theorem kept_mono (own t : Termios) (established : List Termios) (main : MainPlace)
    (frames : List Frame) (kept : Kept own established main frames) :
    Kept own (t :: established) main frames := by
  induction frames with
  | nil => trivial
  | cons frame below ih =>
      obtain ⟨code, mask⟩ := frame
      cases code with
      | handler restored => exact ih kept
      | tstpHandler place ourTermios prevMask =>
          refine ⟨kept.1, fun saved => ?_, ih kept.2.2⟩
          have old := kept.2.1 saved
          split at old
          · next done => exact (if_pos done).mpr (List.mem_cons_of_mem t old)
          · next open_ => exact (if_neg open_).mpr old

theorem clean_cons (main : MainPlace) (below : List Frame) (frame : Frame) :
    clean main (frame :: below) = (frame.code.clean || clean main below) := by
  simp only [clean, List.any_cons]
  cases frame.code.clean <;> simp

/-- Without a `tstpHandler` only what is final is clean. -/
theorem clean_final (main : MainPlace) (frames : List Frame)
    (alone : ∀ frame ∈ frames, frame.code.tstp = false) :
    clean main frames = final main frames := by
  induction frames with
  | nil => rfl
  | cons frame below ih =>
      have rest := ih fun other member => alone other (List.mem_cons_of_mem frame member)
      have plain := alone frame List.mem_cons_self
      obtain ⟨code, mask⟩ := frame
      cases code with
      | handler restored =>
          rw [clean_cons, rest]
          cases restored <;> simp [final, Code.clean]
      | tstpHandler place ourTermios prevMask => cases plain

section Moves
variable (own : Termios) (main : MainPlace) (below : List Frame)
  (tty userTermios ourTermios : Termios) (established : List Termios) (mask prevMask : List Signal)

theorem settings_established (t : Termios) (frames : List Frame)
    (settings : Settings own main frames tty userTermios established)
    (restored : clean main frames = true) :
    Settings own main frames t userTermios (t :: established) :=
  ⟨List.mem_cons_of_mem t settings.user, fun _ => List.mem_cons_self,
    fun bad => by simp [restored] at bad, kept_mono own t established main frames settings.kept⟩

theorem settings_restored (restored : Bool)
    (settings : Settings own main (⟨.handler restored, mask⟩ :: below) tty userTermios
      established) :
    Settings own main (⟨.handler true, mask⟩ :: below) userTermios userTermios established :=
  ⟨settings.user, fun _ => settings.user,
    fun bad => by simp [clean_cons, Code.clean] at bad, settings.kept⟩

theorem settings_entered (frames : List Frame)
    (settings : Settings own main frames tty userTermios established) :
    Settings own main (⟨.handler false, mask⟩ :: frames) tty userTermios established := by
  have same : clean main (⟨.handler false, mask⟩ :: frames) = clean main frames :=
    clean_cons main frames _
  exact ⟨settings.user, fun restored => settings.theirs (same ▸ restored),
    fun bad => settings.ours (same ▸ bad), settings.kept⟩

theorem settings_tstp_entered (frames : List Frame)
    (settings : Settings own main frames tty userTermios established)
    (alone : ∀ frame ∈ frames, frame.code.tstp = false) :
    Settings own main (⟨.tstpHandler .saveOurs ourTermios prevMask, mask⟩ :: frames) tty
      userTermios established := by
  have same : clean main (⟨.tstpHandler .saveOurs ourTermios prevMask, mask⟩ :: frames) =
      clean main frames :=
    clean_cons main frames _
  exact ⟨settings.user, fun restored => settings.theirs (same ▸ restored),
    fun bad => settings.ours (same ▸ bad), alone, fun bad => absurd rfl bad, settings.kept⟩

theorem settings_saved
    (settings : Settings own main (⟨.tstpHandler .saveOurs ourTermios prevMask, mask⟩ :: below)
      tty
      userTermios established) :
    Settings own main (⟨.tstpHandler .restoreUser tty prevMask, mask⟩ :: below) tty
      userTermios established := by
  obtain ⟨alone, _, kept⟩ := settings.kept
  refine ⟨settings.user, settings.theirs, settings.ours, alone, fun _ => ?_, kept⟩
  have same : clean main (⟨.tstpHandler .saveOurs ourTermios prevMask, mask⟩ :: below) =
      final main below :=
    (clean_cons main below _).trans (clean_final main below alone)
  split
  · next done => exact settings.theirs (same.trans done)
  · next open_ => exact settings.ours (same.trans (Bool.eq_false_iff.mpr open_))

/-- Every later step of `tstpHandler` but the last leaves the terminal to the user. -/
theorem settings_tstp (place next : TstpPlace) (prevMask' : List Signal)
    (tty' userTermios' : Termios)
    (settings : Settings own main (⟨.tstpHandler place ourTermios prevMask, mask⟩ :: below) tty
      userTermios established) (saved : place ≠ .saveOurs) (user : userTermios' ∈
        established) (terminal : tty' ∈ established)
    (restored : next.clean = true) :
    Settings own main (⟨.tstpHandler next ourTermios prevMask', mask⟩ :: below) tty'
      userTermios' established := by
  obtain ⟨alone, ours, kept⟩ := settings.kept
  refine ⟨user, fun _ => terminal, fun bad => ?_, alone, fun _ => ours saved, kept⟩
  rw [clean_cons, Code.clean, restored] at bad
  cases bad

theorem settings_returned
    (settings : Settings own main (⟨.tstpHandler .restoreOurs ourTermios prevMask, mask⟩ ::
      below)
      tty userTermios established) :
        Settings own main below ourTermios userTermios established := by
  obtain ⟨alone, ours, kept⟩ := settings.kept
  have saved := ours (by decide)
  rw [← clean_final main below alone] at saved
  refine ⟨settings.user, fun restored => ?_, fun bad => ?_, kept⟩
  · rwa [if_pos restored] at saved
  · rwa [if_neg (Bool.eq_false_iff.mp bad)] at saved

end Moves

/-! The signals. -/

/-- The places at which SIGTSTP has its default disposition. -/
def TstpPlace.default : TstpPlace → Bool
  | .raise | .unblock | .reblock | .reestablish => true
  | _ => false

/-- SIGTSTP is blocked but for the moment in which it is to stop the program. -/
def Placed (disposition : Signal → Disposition) (mask : List Signal) : Code → Prop
  | .handler _ => True
  | .tstpHandler place _ prevMask =>
      (if place = .reblock then Signal.SIGTSTP ∈ prevMask else Signal.SIGTSTP ∈ mask) ∧
        disposition .SIGTSTP = if place.default then .SIG_DFL else .tstpHandler

/-- `main` has set up its handler for a signal. -/
def MainPlace.past : MainPlace → Signal → Bool
  | .ttySet, _ => false
  | .sigquit, _ => false
  | .sigint, sig => sig = .SIGQUIT
  | .sigtstp, sig => sig = .SIGQUIT || sig = .SIGINT
  | .sigterm, sig => sig ≠ .SIGTERM
  | _, _ => true

structure Signals (state : State) : Prop where
  early : state.main.ready = false →
    state.frames = [] ∧ state.pending = [] ∧ state.stopped = false ∧ state.ended = none
  armed : ∀ sig, sig ≠ .SIGTSTP → state.main.past sig = true →
    (state.cbreak = true ∨ sig = .SIGTERM) →
    state.disposition sig = .SIG_IGN ∨ state.disposition sig = .handler
  watched : state.cbreak = true → state.main.past .SIGTSTP = true →
    (∀ frame ∈ state.frames, frame.code.tstp = false) →
    state.disposition .SIGTSTP = .SIG_IGN ∨ state.disposition .SIGTSTP = .tstpHandler
  placed : ∀ frame ∈ state.frames, Placed state.disposition state.mask frame.code
  raw : state.cbreak = false →
    (∀ frame ∈ state.frames, frame.code.tstp = false) ∧ ∀ sig ∈ state.pending,
      sig = .SIGTERM
  stopped : state.stopped = true → clean state.main state.frames = true
  ended : ∀ how, state.ended = some how → how = .exited ∧ clean state.main state.frames = true

structure Sound (own initial : Termios) (state : State) : Prop where
  signals : Signals state
  first : state.main = .ttySet → state.tty = initial ∧ initial ∈ state.established
  settings : state.main ≠ .ttySet →
    Settings own state.main state.frames state.tty state.userTermios state.established

/-- The program's own settings. -/
def ownSettings (cbreak : Bool) (initial : Termios) : Termios :=
  if cbreak then ttySetCbreak initial else ttySetRaw initial

theorem start_sound (cbreak : Bool) (ignored : Signal → Bool) (initial unset : Termios) :
    Sound (ownSettings cbreak initial) initial (start cbreak ignored initial unset) := by
  refine ⟨⟨fun _ => ⟨rfl, rfl, rfl, rfl⟩, fun _ _ bad => (by cases bad),
    fun _ bad => (by cases bad), fun _ bad => absurd bad List.not_mem_nil,
    fun _ => ⟨fun _ bad => absurd bad List.not_mem_nil,
      fun _ bad => absurd bad List.not_mem_nil⟩,
    fun bad => (by cases bad), fun _ bad => by cases bad⟩, fun _ => ⟨rfl, List.mem_cons_self⟩,
    fun bad => absurd rfl bad⟩

theorem ready_past (main : MainPlace) (ready : main.ready = true) (sig : Signal) :
    main.past sig = true := by
  cases main <;> first | rfl | cases ready

/-- A step of `main`, which no handler interrupts. -/
theorem main_signals (before after : State) (signals : Signals before)
    (running : before.stopped = false)
    (same : after.cbreak = before.cbreak ∧ after.frames = [] ∧
      after.pending = before.pending ∧ after.stopped = before.stopped ∧
      after.ended = before.ended)
    (onward : after.main.ready = false → before.main.ready = false)
    (armed : ∀ sig, sig ≠ .SIGTSTP → after.main.past sig = true →
      (after.cbreak = true ∨ sig = .SIGTERM) →
      after.disposition sig = .SIG_IGN ∨ after.disposition sig = .handler)
    (watched : after.cbreak = true → after.main.past .SIGTSTP = true →
      after.disposition .SIGTSTP = .SIG_IGN ∨ after.disposition .SIGTSTP = .tstpHandler)
    (alive : before.ended = Option.none) : Signals after := by
  obtain ⟨cbreak, frames, pending, stopped, ended⟩ := same
  refine ⟨fun bad => ?_, armed, fun mode past _ => watched mode past, ?_,
    fun mode => ?_, ?_, ?_⟩
  · obtain ⟨_, nothing, _, _⟩ := signals.early (onward bad)
    exact ⟨frames, pending.trans nothing, stopped.trans running, ended.trans alive⟩
  · rw [frames]
    exact fun _ bad => absurd bad List.not_mem_nil
  · rw [frames, pending]
    exact ⟨fun _ bad => absurd bad List.not_mem_nil, (signals.raw (cbreak ▸ mode)).2⟩
  · rw [stopped, running]
    exact fun bad => by cases bad
  · rw [ended, alive]
    exact fun _ bad => by cases bad

theorem establish_own (sig : Signal) (disposition : Disposition) (state : State) :
    (establish sig disposition state).disposition sig = .SIG_IGN ∨
      (establish sig disposition state).disposition sig = disposition := by
  unfold establish
  split
  · exact Or.inr (if_pos rfl)
  · next ignored => exact Or.inl (not_not.mp ignored)

theorem establish_other (sig other : Signal) (disposition : Disposition) (state : State)
    (different : other ≠ sig) :
    (establish sig disposition state).disposition other = state.disposition other := by
  unfold establish
  split
  · exact if_neg different
  · rfl

theorem establish_same (sig : Signal) (disposition : Disposition) (state : State) :
    ∃ changed, establish sig disposition state = { state with disposition := changed } := by
  unfold establish
  split
  · exact ⟨_, rfl⟩
  · exact ⟨state.disposition, rfl⟩

theorem settings_alone (own : Termios) (main : MainPlace) (tty userTermios : Termios)
    (established : List Termios) (user : userTermios ∈ established)
    (terminal : if main = .exit then tty ∈ established else tty = own) :
    Settings own main [] tty userTermios established := by
  have same : clean main [] = decide (main = .exit) := Bool.or_false _
  refine ⟨user, fun restored => ?_, fun bad => ?_, trivial⟩
  · rw [same, decide_eq_true_eq] at restored
    rwa [if_pos restored] at terminal
  · rw [same, decide_eq_false_iff_not] at bad
    rwa [if_neg bad] at terminal

section Main
variable (initial : Termios) (before : State)
  (sound : Sound (ownSettings before.cbreak initial) initial before) (none : before.frames = [])
  (running : before.stopped = false) (alive : before.ended = Option.none)
include sound none running alive

/-- Setting a handler up leaves the settings alone. -/
theorem set_up_sound (sig : Signal) (disposition : Disposition) (next : MainPlace) (after : State)
    (made : ∃ changed, after = { before with disposition := changed, main := next })
    (own : after.disposition sig = .SIG_IGN ∨ after.disposition sig = disposition)
    (other : ∀ other, other ≠ sig → after.disposition other = before.disposition other)
    (kind : disposition = if sig = .SIGTSTP then .tstpHandler else .handler)
    (order : ∀ other, next.past other = true → other = sig ∨ before.main.past other = true)
    (places : before.main ≠ .ttySet ∧ before.main ≠ .exit ∧ before.main.ready = false)
    (nexts : next ≠ .ttySet ∧ next ≠ .exit) :
    Sound (ownSettings before.cbreak initial) initial after := by
  obtain ⟨changed, rfl⟩ := made
  have settings := sound.settings places.1
  rw [none] at settings
  have terminal : before.tty = ownSettings before.cbreak initial := by
    refine settings.ours ?_
    simp [clean, places.2.1]
  refine ⟨main_signals before _ sound.signals running ⟨rfl, none, rfl, rfl, rfl⟩
    (fun _ => places.2.2) ?_ ?_ alive, fun bad => absurd bad nexts.1, fun _ => ?_⟩
  · intro sig' different past mode
    by_cases same : sig' = sig
    · subst same
      rw [if_neg different] at kind
      rwa [kind] at own
    · rw [other sig' same]
      exact sound.signals.armed sig' different ((order sig' past).resolve_left same) mode
  · intro mode past
    by_cases same : Signal.SIGTSTP = sig
    · subst same
      rw [if_pos rfl] at kind
      rwa [kind] at own
    · rw [other _ same]
      refine sound.signals.watched mode ((order _ past).resolve_left same) ?_
      rw [none]
      exact fun _ bad => absurd bad List.not_mem_nil
  · dsimp only
    rw [none]
    exact settings_alone _ _ _ _ _ settings.user ((if_neg nexts.2).mpr terminal)

theorem established_sound (sig : Signal) (disposition : Disposition) (next : MainPlace)
    (kind : disposition = if sig = .SIGTSTP then .tstpHandler else .handler)
    (order : ∀ other, next.past other = true → other = sig ∨ before.main.past other = true)
    (places : before.main ≠ .ttySet ∧ before.main ≠ .exit ∧ before.main.ready = false)
    (nexts : next ≠ .ttySet ∧ next ≠ .exit) :
    Sound (ownSettings before.cbreak initial) initial { establish sig disposition before with
      main := next } := by
  refine set_up_sound initial before sound none running alive sig disposition next _ ?_
    (establish_own sig disposition before)
    (fun other different => establish_other sig other disposition before different)
      kind order places nexts
  obtain ⟨changed, made⟩ := establish_same sig disposition before
  exact ⟨changed, by rw [made]⟩

theorem tty_set_sound (place : before.main = .ttySet) (own : Termios) (next : MainPlace)
    (mode : own = ownSettings before.cbreak before.tty)
    (places : next ≠ .ttySet ∧ next ≠ .exit)
    (unset : ∀ sig, next.past sig = true → sig = .SIGTERM ∨ before.cbreak = true → False) :
    Sound (ownSettings before.cbreak initial) initial
      { tcsetattr own before with userTermios := before.tty, main := next } := by
  obtain ⟨terminal, established⟩ := sound.first place
  refine ⟨main_signals before _ sound.signals running ⟨rfl, none, rfl, rfl, rfl⟩
    (fun _ => by rw [place]; rfl)
    (fun sig _ past mode => (unset sig past mode.symm).elim) (fun mode past =>
      (unset _ past (Or.inr mode)).elim) alive,
    fun bad => absurd bad places.1, fun _ => ?_⟩
  dsimp only [tcsetattr]
  rw [none, terminal, mode]
  exact settings_alone _ _ _ _ _ established ((if_neg places.2).mpr (by rw [terminal]))

/-- Steps after the handlers have been set up. -/
theorem ready_sound (after : State) (ready : before.main.ready = true)
    (same : after.cbreak = before.cbreak ∧ after.frames = [] ∧
      after.pending = before.pending ∧
      after.stopped = before.stopped ∧ after.ended = before.ended)
    (disposition : after.disposition = before.disposition) (later : after.main.ready = true)
    (user : after.userTermios = before.userTermios)
    (established : after.established = before.established)
    (terminal : if after.main = .exit then after.tty = before.userTermios else
      before.main ≠ .exit ∧ after.tty = before.tty) :
    Sound (ownSettings before.cbreak initial) initial after := by
  have started : before.main ≠ .ttySet := fun bad => by simp [bad, MainPlace.ready] at ready
  have settings := sound.settings started
  rw [none] at settings
  refine ⟨main_signals before after sound.signals running same (fun bad => by simp [later] at bad)
    ?_ ?_ alive, ?_, ?_⟩
  · intro sig different _ mode
    rw [disposition]
    exact sound.signals.armed sig different (ready_past _ ready sig) (same.1 ▸ mode)
  · intro mode _
    rw [disposition]
    refine sound.signals.watched (same.1 ▸ mode) (ready_past _ ready _) ?_
    rw [none]
    exact fun _ bad => absurd bad List.not_mem_nil
  · intro bad
    simp [bad, MainPlace.ready] at later
  · intro _
    rw [same.2.1, user, established]
    refine settings_alone _ _ _ _ _ settings.user ?_
    split
    · next leaving =>
        rw [if_pos leaving] at terminal
        rw [terminal]
        exact settings.user
    · next staying =>
        rw [if_neg staying] at terminal
        rw [terminal.2]
        exact settings.ours (by simp [clean, terminal.1])

theorem main_sound (after : State) (taken : stepMain before = some after) :
    Sound (ownSettings before.cbreak initial) initial after ∧ after.cbreak = before.cbreak := by
  cases place : before.main with
  | ttySet =>
      simp only [stepMain, place] at taken
      split at taken
      · next mode =>
          cases taken
          refine ⟨tty_set_sound initial before sound none running alive place _ .sigquit ?_
            (by decide) ?_, rfl⟩
          · rw [ownSettings, if_pos mode]
          · intro sig bad
            cases bad
      · next mode =>
          cases taken
          refine ⟨tty_set_sound initial before sound none running alive place _ .sigterm ?_
            (by decide) ?_, rfl⟩
          · rw [ownSettings, if_neg mode]
          · rintro sig past (rfl | bad)
            · cases past
            · exact mode bad
  | sigquit =>
      simp only [stepMain, place] at taken
      cases taken
      refine ⟨established_sound initial before sound none running alive .SIGQUIT
        .handler .sigint rfl ?_ (by rw [place]; decide) (by decide), ?_⟩
      · exact fun other past => Or.inl (of_decide_eq_true past)
      · obtain ⟨changed, made⟩ := establish_same .SIGQUIT .handler before
        rw [made]
  | sigint =>
      simp only [stepMain, place] at taken
      cases taken
      refine ⟨established_sound initial before sound none running alive .SIGINT
        .handler .sigtstp rfl ?_ (by rw [place]; decide) (by decide), ?_⟩
      · rw [place]
        intro other
        cases other <;> decide
      · obtain ⟨changed, made⟩ := establish_same .SIGINT .handler before
        rw [made]
  | sigtstp =>
      simp only [stepMain, place] at taken
      cases taken
      refine ⟨established_sound initial before sound none running alive .SIGTSTP
        .tstpHandler .sigterm rfl ?_ (by rw [place]; decide) (by decide), ?_⟩
      · rw [place]
        intro other
        cases other <;> decide
      · obtain ⟨changed, made⟩ := establish_same .SIGTSTP .tstpHandler before
        rw [made]
  | sigterm =>
      simp only [stepMain, place] at taken
      cases taken
      refine ⟨set_up_sound initial before sound none running alive .SIGTERM .handler .read _
        ⟨_, rfl⟩ (Or.inr rfl)
        (fun other different => if_neg different) rfl ?_ (by rw [place]; decide) (by decide), rfl⟩
      rw [place]
      intro other
      cases other <;> decide
  | read =>
      simp only [stepMain, place] at taken
      split at taken
      · cases taken
      · next ch rest typed =>
          cases taken
          refine ⟨ready_sound initial before sound none running alive _ (by rw [place]; rfl)
            ⟨rfl, none, rfl, rfl, rfl⟩ rfl ?_ rfl rfl ?_, rfl⟩
          · dsimp only
            split <;> rfl
          · dsimp only
            rw [if_neg (by split <;> decide), place]
            exact ⟨by decide, rfl⟩
  | tcsetattr =>
      simp only [stepMain, place] at taken
      cases taken
      exact ⟨ready_sound initial before sound none running alive _ (by rw [place]; rfl) ⟨rfl,
        none, rfl, rfl, rfl⟩ rfl rfl
        rfl rfl (if_pos rfl ▸ rfl), rfl⟩
  | exit =>
      simp only [stepMain, place, Option.some.injEq] at taken
      rw [← place] at taken
      subst taken
      have signals := sound.signals
      have restored : clean before.main before.frames = true := by simp [clean, place]
      refine ⟨⟨⟨fun bad => ?_, signals.armed, signals.watched, signals.placed, signals.raw,
        signals.stopped, ?_⟩, sound.first, sound.settings⟩, rfl⟩
      · simp [place, MainPlace.ready] at bad
      · rintro _ ⟨⟩
        exact ⟨rfl, restored⟩

end Main

theorem placed_plain (disposition : Signal → Disposition) (mask : List Signal) (code : Code)
    (plain : code.tstp = false) : Placed disposition mask code := by
  cases code with
  | handler restored => trivial
  | tstpHandler place ourTermios prevMask => cases plain

theorem placed_mono (disposition : Signal → Disposition) (mask : List Signal)
    (code : Code) (sig : Signal) (placed : Placed disposition mask code) :
    Placed disposition (sig :: mask) code := by
  cases code with
  | handler restored => trivial
  | tstpHandler place ourTermios prevMask =>
      refine ⟨?_, placed.2⟩
      have blocked := placed.1
      split at blocked
      · next here => exact (if_pos here).mpr blocked
      · next elsewhere => exact (if_neg elsewhere).mpr (List.mem_cons_of_mem sig blocked)

section Frames
variable (initial : Termios) (before : State)
  (sound : Sound (ownSettings before.cbreak initial) initial before)
  (running : before.stopped = false) (alive : before.ended = none)

include sound in
theorem active_ready (active : before.frames ≠ []) : before.main.ready = true := by
  by_contra early
  exact active (sound.signals.early (Bool.eq_false_iff.mpr early)).1

theorem ready_started (main : MainPlace) (ready : main.ready = true) : main ≠ .ttySet := by
  rintro rfl
  cases ready

include sound running alive

theorem handler_sound (restored : Bool) (mask : List Signal) (below : List Frame)
    (top : before.frames = ⟨.handler restored, mask⟩ :: below) :
    Sound (ownSettings before.cbreak initial) initial (stepHandler before below mask restored) := by
  have ready := active_ready initial before sound (by rw [top]; exact List.cons_ne_nil _ _)
  have started := ready_started before.main ready
  have settings := sound.settings started
  have signals := sound.signals
  unfold stepHandler
  split
  · next done =>
      refine ⟨⟨fun bad => ?_, signals.armed, signals.watched, signals.placed, signals.raw,
        signals.stopped, ?_⟩, sound.first, sound.settings⟩
      · exact absurd ready (Bool.eq_false_iff.mp bad)
      · rintro _ ⟨⟩
        refine ⟨rfl, ?_⟩
        dsimp only
        rw [top, clean_cons, Code.clean, done]
        rfl
  · have plain (frame : Frame) (member : frame ∈
      (⟨.handler true, mask⟩ :: below : List Frame)) :
        frame.code.tstp = false ∨ frame ∈ before.frames := by
      rw [top]
      rcases List.mem_cons.mp member with rfl | inside
      · exact Or.inl rfl
      · exact Or.inr (List.mem_cons_of_mem _ inside)
    refine ⟨⟨fun bad => absurd ready (Bool.eq_false_iff.mp bad), signals.armed,
      fun mode past none => ?_, fun frame member => ?_, fun mode =>
        ⟨fun frame member => ?_, (signals.raw mode).2⟩, fun bad => ?_, fun how bad => ?_⟩,
      fun bad => absurd bad started, fun _ => ?_⟩
    · refine signals.watched mode past fun frame member => ?_
      rw [top] at member
      rcases List.mem_cons.mp member with rfl | inside
      · rfl
      · exact none frame (List.mem_cons_of_mem _ inside)
    · exact (plain frame member).elim (placed_plain _ _ _) (signals.placed frame)
    · exact (plain frame member).elim id ((signals.raw mode).1 frame)
    · exact absurd (running.symm.trans bad) Bool.false_ne_true
    · exact absurd (alive.symm.trans bad) (Option.some_ne_none how).symm
    · rw [top] at settings
      exact settings_restored _ _ _ _ _ _ _ restored settings

/-- A step of `tstpHandler` that is not its last. -/
theorem tstp_signals (after : State) (place next : TstpPlace) (ourTermios ourTermios' : Termios)
    (prevMask prevMask' mask : List Signal) (below : List Frame)
    (top : before.frames = ⟨.tstpHandler place ourTermios prevMask, mask⟩ :: below)
    (alone : ∀ frame ∈ below, frame.code.tstp = false)
    (same : after.cbreak = before.cbreak ∧ after.main = before.main ∧
      after.stopped = before.stopped ∧
      after.ended = before.ended)
    (frames : after.frames = ⟨.tstpHandler next ourTermios' prevMask', mask⟩ :: below)
    (placed : Placed after.disposition after.mask (.tstpHandler next ourTermios' prevMask'))
    (other : ∀ sig, sig ≠ .SIGTSTP → after.disposition sig = before.disposition sig) :
    Signals after := by
  have ready := active_ready initial before sound (by rw [top]; exact List.cons_ne_nil _ _)
  obtain ⟨cbreak, main, stopped, ended⟩ := same
  refine ⟨fun bad => ?_, fun sig different past mode => ?_, fun _ _ none => ?_,
    fun frame member => ?_, fun mode => ?_, fun bad => ?_, fun how bad => ?_⟩
  · rw [main] at bad
    exact absurd ready (Bool.eq_false_iff.mp bad)
  · rw [other sig different]
    exact sound.signals.armed sig different (main ▸ past) (cbreak ▸ mode)
  · rw [frames] at none
    cases none _ List.mem_cons_self
  · rw [frames] at member
    rcases List.mem_cons.mp member with rfl | inside
    · exact placed
    · exact placed_plain _ _ _ (alone frame inside)
  · have none := (sound.signals.raw (cbreak ▸ mode)).1
    rw [top] at none
    cases none _ List.mem_cons_self
  · rw [stopped, running] at bad
    cases bad
  · rw [ended, alive] at bad
    cases bad

/-- The last step of `tstpHandler`. -/
theorem tstp_returns (ourTermios : Termios) (prevMask mask : List Signal) (below : List Frame)
    (top : before.frames = ⟨.tstpHandler .restoreOurs ourTermios prevMask, mask⟩ :: below) :
    Sound (ownSettings before.cbreak initial) initial
      { tcsetattr ourTermios before with frames := below, mask := mask } := by
  have ready := active_ready initial before sound (by rw [top]; exact List.cons_ne_nil _ _)
  have started := ready_started before.main ready
  have settings := sound.settings started
  rw [top] at settings
  have alone := settings.kept.1
  have signals := sound.signals
  have placed := signals.placed ⟨.tstpHandler .restoreOurs ourTermios prevMask, mask⟩
    (top ▸ List.mem_cons_self)
  refine ⟨⟨fun bad => absurd ready (Bool.eq_false_iff.mp bad), signals.armed,
    fun _ _ _ => Or.inr placed.2, fun frame member => placed_plain _ _ _ (alone frame member),
    fun mode => ⟨alone, (signals.raw mode).2⟩, fun bad => ?_, fun how bad => ?_⟩,
    fun bad => absurd bad started, fun _ => ?_⟩
  · exact absurd (running.symm.trans bad) Bool.false_ne_true
  · exact absurd (alive.symm.trans bad) (Option.some_ne_none how).symm
  · exact settings_returned _ _ _ _ _ _ _ _ _ settings

theorem tstp_sound (place : TstpPlace) (ourTermios : Termios) (prevMask mask : List Signal)
    (below : List Frame)
    (top : before.frames = ⟨.tstpHandler place ourTermios prevMask, mask⟩ :: below) :
    Sound (ownSettings before.cbreak initial) initial
      (stepTstpHandler before below mask place ourTermios prevMask) := by
  have ready := active_ready initial before sound (by rw [top]; exact List.cons_ne_nil _ _)
  have started := ready_started before.main ready
  have settings := sound.settings started
  rw [top] at settings
  have alone := settings.kept.1
  obtain ⟨blocked, current⟩ :=
    sound.signals.placed ⟨.tstpHandler place ourTermios prevMask, mask⟩
      (top ▸ List.mem_cons_self)
  -- the terminal is the user's from the second call on
  have theirs (restored : place.clean = true) : before.tty ∈ before.established := by
    refine settings.theirs ?_
    rw [clean_cons, Code.clean, restored]
    rfl
  have signals (after : State) (next : TstpPlace) (ourTermios' : Termios)
      (prevMask' : List Signal) :=
    tstp_signals initial before sound running alive after place next ourTermios ourTermios' prevMask
      prevMask' mask below top alone
  cases place with
  | saveOurs =>
      exact ⟨signals _ .restoreUser before.tty prevMask ⟨rfl, rfl, rfl, rfl⟩ rfl ⟨blocked,
        current⟩ fun _ _ => rfl, fun bad => absurd bad started,
        fun _ => settings_saved _ _ _ _ _ _ _ _ _ settings⟩
  | restoreUser =>
      exact ⟨signals _ .signalDefault ourTermios prevMask ⟨rfl, rfl, rfl, rfl⟩ rfl ⟨blocked,
        current⟩ fun _ _ => rfl, fun bad => absurd bad started,
        fun _ => settings_tstp _ _ _ _ _ _ _ _ _ _ _ _ _ _ settings (by decide) settings.user
          settings.user rfl⟩
  | signalDefault =>
      exact ⟨signals _ .raise ourTermios prevMask ⟨rfl, rfl, rfl, rfl⟩ rfl ⟨blocked, rfl⟩
          fun _ different => if_neg different,
        fun bad => absurd bad started,
        fun _ => settings_tstp _ _ _ _ _ _ _ _ _ _ _ _ _ _ settings (by decide) settings.user
          (theirs rfl) rfl⟩
  | raise =>
      exact ⟨signals _ .unblock ourTermios prevMask ⟨rfl, rfl, rfl, rfl⟩ rfl ⟨blocked,
        current⟩ fun _ _ => rfl, fun bad => absurd bad started,
        fun _ => settings_tstp _ _ _ _ _ _ _ _ _ _ _ _ _ _ settings (by decide) settings.user
          (theirs rfl) rfl⟩
  | unblock =>
      exact ⟨signals _ .reblock ourTermios before.mask ⟨rfl, rfl, rfl, rfl⟩ rfl ⟨blocked,
        current⟩ fun _ _ => rfl, fun bad => absurd bad started,
        fun _ => settings_tstp _ _ _ _ _ _ _ _ _ _ _ _ _ _ settings (by decide) settings.user
          (theirs rfl) rfl⟩
  | reblock =>
      exact ⟨signals _ .reestablish ourTermios prevMask ⟨rfl, rfl, rfl, rfl⟩ rfl ⟨blocked,
        current⟩ fun _ _ => rfl, fun bad => absurd bad started,
        fun _ => settings_tstp _ _ _ _ _ _ _ _ _ _ _ _ _ _ settings (by decide) settings.user
          (theirs rfl) rfl⟩
  | reestablish =>
      exact ⟨signals _ .saveUser ourTermios prevMask ⟨rfl, rfl, rfl,
          rfl⟩ rfl ⟨blocked, rfl⟩ fun _ different => if_neg different,
        fun bad => absurd bad started,
        fun _ => settings_tstp _ _ _ _ _ _ _ _ _ _ _ _ _ _ settings (by decide) settings.user
          (theirs rfl) rfl⟩
  | saveUser =>
      exact ⟨signals _ .restoreOurs ourTermios prevMask ⟨rfl, rfl, rfl, rfl⟩ rfl ⟨blocked,
        current⟩ fun _ _ => rfl, fun bad => absurd bad started,
        fun _ => settings_tstp _ _ _ _ _ _ _ _ _ _ _ _ _ _ settings (by decide) (theirs rfl)
          (theirs rfl) rfl⟩
  | restoreOurs =>
      exact tstp_returns initial before sound running alive ourTermios prevMask mask below top

/-- The start of a handler over the active ones. -/
theorem enter_signals (sig : Signal) (code : Code) (pending : List Signal)
    (fewer : ∀ other ∈ pending, other ∈ before.pending) (ready : before.main.ready = true)
    (placed : Placed before.disposition (sig :: before.mask) code)
    (mode : before.cbreak = false → code.tstp = false) :
    Signals (enter sig code { before with pending := pending }) := by
  have signals := sound.signals
  refine ⟨fun bad => absurd ready (Bool.eq_false_iff.mp bad), signals.armed,
    fun mode past none => ?_, fun frame member => ?_, fun raw =>
      ⟨fun frame member => ?_, fun other member => ?_⟩, fun bad => ?_, fun how bad => ?_⟩
  · exact signals.watched mode past fun frame member => none frame (List.mem_cons_of_mem _ member)
  · rcases List.mem_cons.mp member with rfl | inside
    · exact placed
    · exact placed_mono _ _ _ sig (signals.placed frame inside)
  · rcases List.mem_cons.mp member with rfl | inside
    · exact mode raw
    · exact (signals.raw raw).1 frame inside
  · exact (signals.raw raw).2 other (fewer other member)
  · exact absurd (running.symm.trans bad) Bool.false_ne_true
  · exact absurd (alive.symm.trans bad) (Option.some_ne_none how).symm

omit running alive in
theorem fewer_sound (pending : List Signal)
    (fewer : ∀ other ∈ pending, other ∈ before.pending) :
    Sound (ownSettings before.cbreak initial) initial { before with pending := pending } := by
  have signals := sound.signals
  refine ⟨⟨fun early => ?_, signals.armed, signals.watched, signals.placed,
    fun raw => ⟨(signals.raw raw).1, ?_⟩, signals.stopped, signals.ended⟩,
    sound.first, sound.settings⟩
  · obtain ⟨frames, nothing, stopped, ended⟩ := signals.early early
    refine ⟨frames, List.eq_nil_iff_forall_not_mem.mpr fun other member => ?_, stopped, ended⟩
    have old := fewer other member
    rw [nothing] at old
    cases old
  · exact fun other member => (signals.raw raw).2 other (fewer other member)

section Delivery
variable (sig : Signal) (come : sig ∈ before.pending)
include come

omit running alive in
theorem pending_ready : before.main.ready = true := by
  by_contra early
  have nothing := (sound.signals.early (Bool.eq_false_iff.mpr early)).2.1
  rw [nothing] at come
  cases come

omit running alive in
theorem pending_armed (different : sig ≠ .SIGTSTP) :
    before.disposition sig = .SIG_IGN ∨ before.disposition sig = .handler := by
  refine sound.signals.armed sig different
    (ready_past _ (pending_ready initial before sound sig come) sig) ?_
  cases mode : before.cbreak with
  | true => exact Or.inl rfl
  | false => exact Or.inr ((sound.signals.raw mode).2 sig come)

omit running alive in
theorem pending_tstp (same : sig = .SIGTSTP) : before.cbreak = true := by
  by_contra raw
  have bad := (sound.signals.raw (Bool.eq_false_iff.mpr raw)).2 sig come
  rw [same] at bad
  cases bad

omit running alive in
/-- Only `tstpHandler` lets SIGTSTP stop the program. -/
theorem default_clean (normal : before.disposition sig = .SIG_DFL) :
    sig = .SIGTSTP ∧ clean before.main before.frames = true := by
  have same : sig = .SIGTSTP := by
    by_contra different
    rcases pending_armed initial before sound sig come different with bad | bad
    · rw [bad] at normal
      cases normal
    · rw [bad] at normal
      cases normal
  refine ⟨same, ?_⟩
  have mode := pending_tstp initial before sound sig come same
  subst same
  by_contra dirty
  have none : ∀ frame ∈ before.frames, frame.code.tstp = false := by
    intro frame member
    have placed := sound.signals.placed frame member
    cases code : frame.code with
    | handler restored => rfl
    | tstpHandler place ourTermios prevMask =>
        rw [code, Placed, normal] at placed
        refine absurd (List.any_eq_true.mpr ⟨frame, member, ?_⟩) fun found =>
          dirty (by rw [clean, found, Bool.or_true])
        rw [code, Code.clean]
        cases place <;> first | rfl | cases placed.2
  rcases sound.signals.watched mode (ready_past _ (pending_ready initial before sound _ come) _)
    none with bad | bad
  · rw [bad] at normal
    cases normal
  · rw [bad] at normal
    cases normal

theorem deliver_sound (open_ : sig ∉ before.mask) :
    Sound (ownSettings before.cbreak initial) initial (deliver sig before) := by
  have ready := pending_ready initial before sound sig come
  have started := ready_started before.main ready
  have settings := sound.settings started
  have fewer : ∀ other ∈ before.pending.filter (· ≠ sig), other ∈ before.pending :=
    fun other member => List.mem_of_mem_filter member
  have left := fewer_sound initial before sound _ fewer
  unfold deliver
  dsimp only
  cases current : before.disposition sig with
  | SIG_IGN => exact left
  | SIG_DFL =>
      obtain ⟨same, restored⟩ := default_clean initial before sound sig come current
      dsimp only
      rw [if_pos same]
      refine ⟨⟨fun bad => absurd ready (Bool.eq_false_iff.mp bad), left.signals.armed,
        left.signals.watched, left.signals.placed, left.signals.raw, fun _ => restored,
        left.signals.ended⟩, left.first, left.settings⟩
  | handler =>
      exact ⟨enter_signals initial before sound running alive sig _ _ fewer ready trivial fun _ =>
        rfl,
          fun bad => absurd bad started, fun _ => settings_entered _ _ _ _ _ _ _ settings⟩
  | tstpHandler =>
      have same : sig = .SIGTSTP := by
        by_contra different
        rcases pending_armed initial before sound sig come different with bad | bad
        · rw [bad] at current
          cases current
        · rw [bad] at current
          cases current
      have mode := pending_tstp initial before sound sig come same
      subst same
      -- an active `tstpHandler` would have blocked the signal
      have alone : ∀ frame ∈ before.frames, frame.code.tstp = false := by
        intro frame member
        have placed := sound.signals.placed frame member
        cases code : frame.code with
        | handler restored => rfl
        | tstpHandler place ourTermios prevMask =>
            rw [code, Placed, current] at placed
            have elsewhere : place ≠ .reblock := by
              rintro rfl
              cases placed.2
            rw [if_neg elsewhere] at placed
            exact absurd placed.1 open_
      refine ⟨enter_signals initial before sound running alive .SIGTSTP _ _ fewer ready ⟨?_,
        current⟩ fun raw => ?_, fun bad => absurd bad started,
        fun _ => settings_tstp_entered _ _ _ _ _ _ _ _ _ settings alone⟩
      · exact (if_neg (by decide)).mpr List.mem_cons_self
      · rw [mode] at raw
        cases raw

end Delivery

end Frames

theorem step_sound (initial : Termios) (choice : Choice) (before after : State)
    (sound : Sound (ownSettings before.cbreak initial) initial before)
    (quiet : calm choice before = true) (taken : step choice before = some after) :
    Sound (ownSettings before.cbreak initial) initial after ∧ after.cbreak = before.cbreak := by
  unfold step at taken
  rw [Option.ite_none_left_eq_some, not_not] at taken
  obtain ⟨alive, taken⟩ := taken
  have signals := sound.signals
  cases choice with
  | act =>
      simp only [Option.ite_none_left_eq_some, Bool.not_eq_true] at taken
      obtain ⟨running, taken⟩ := taken
      unfold act at taken
      rw [Option.ite_none_left_eq_some] at taken
      replace taken := taken.2
      split at taken
      · next none => exact main_sound initial before sound none running alive after taken
      · next restored mask below top =>
          cases taken
          refine ⟨handler_sound initial before sound running alive restored mask below top, ?_⟩
          unfold stepHandler
          split <;> rfl
      · next place ourTermios prevMask mask below top =>
          cases taken
          refine ⟨tstp_sound initial before sound running alive place ourTermios prevMask
            mask below top, ?_⟩
          cases place <;> rfl
  | signal sig =>
      simp only [Option.ite_none_left_eq_some, Option.some.injEq] at taken
      obtain ⟨_, rfl⟩ := taken
      rw [calm, Bool.and_eq_true, Bool.or_eq_true, decide_eq_true_eq] at quiet
      obtain ⟨ready, sent⟩ := quiet
      refine ⟨⟨⟨fun bad => absurd ready (Bool.eq_false_iff.mp bad), signals.armed,
        signals.watched, signals.placed,
        fun raw => ⟨(signals.raw raw).1, fun other member => ?_⟩, signals.stopped,
        signals.ended⟩, sound.first, sound.settings⟩, rfl⟩
      rcases List.mem_cons.mp member with rfl | inside
      · exact sent.resolve_left (fun mode => by rw [mode] at raw; cases raw)
      · exact (signals.raw raw).2 other inside
  | deliver sig =>
      simp only [Option.ite_none_right_eq_some, Option.some.injEq] at taken
      obtain ⟨⟨running, come, open_⟩, rfl⟩ := taken
      refine ⟨deliver_sound initial before sound running alive sig come open_, ?_⟩
      unfold deliver
      dsimp only
      cases before.disposition sig with
      | SIG_DFL =>
          dsimp only
          split <;> rfl
      | _ => rfl
  | cont =>
      cases taken
      have left := fewer_sound initial before sound (before.pending.filter (· ≠ .SIGTSTP))
        fun other member => List.mem_of_mem_filter member
      refine ⟨⟨⟨fun early => ?_, left.signals.armed, left.signals.watched,
        left.signals.placed, left.signals.raw, fun bad => (by cases bad), left.signals.ended⟩,
        left.first, left.settings⟩, rfl⟩
      obtain ⟨frames, nothing, _, ended⟩ := left.signals.early early
      exact ⟨frames, nothing, rfl, ended⟩
  | setTty t =>
      simp only [Option.ite_none_right_eq_some, Option.some.injEq] at taken
      obtain ⟨stopped, rfl⟩ := taken
      have restored := signals.stopped stopped
      have ready : before.main.ready = true := by
        by_contra early
        have bad := (signals.early (Bool.eq_false_iff.mpr early)).2.2.1
        rw [stopped] at bad
        cases bad
      have started := ready_started before.main ready
      exact ⟨⟨⟨signals.early, signals.armed, signals.watched, signals.placed,
        signals.raw, signals.stopped, signals.ended⟩, fun bad => absurd bad started,
        fun _ => settings_established _ _ _ _ _ t _ (sound.settings started) restored⟩, rfl⟩
  | type ch =>
      cases taken
      exact ⟨⟨⟨signals.early, signals.armed, signals.watched, signals.placed,
        signals.raw, signals.stopped, signals.ended⟩, sound.first, sound.settings⟩, rfl⟩
  | hangup =>
      simp only [Option.ite_none_right_eq_some, Option.some.injEq] at taken
      obtain ⟨⟨place, none, running, _⟩, rfl⟩ := taken
      refine ⟨ready_sound initial before sound none running alive _ (by rw [place]; rfl) ⟨rfl,
        none, rfl, rfl, rfl⟩ rfl rfl
        rfl rfl ?_, rfl⟩
      dsimp only
      rw [if_neg (by decide), place]
      exact ⟨by decide, rfl⟩

/-- Whenever a signal has stopped the program or it has ended, in whichever handlers this
happened, the terminal has settings that the user made; the program is not killed with its own
left behind, and has its own again when it goes on. -/
theorem terminal_is_given_back (cbreak : Bool) (ignored : Signal → Bool) (initial unset : Termios)
    (state : State) (reached : Transition.Reachable (· = start cbreak ignored initial unset)
      (Transition.restrict calm step) state) :
    (state.stopped = true ∨ state.ended ≠ none → state.tty ∈ state.established) ∧
      (∀ how, state.ended = some how → how = .exited) ∧
      (state.frames = [] → state.main = .read → state.tty = ownSettings cbreak initial) := by
  have both : Sound (ownSettings state.cbreak initial) initial state ∧ state.cbreak = cbreak := by
    induction reached with
    | start here =>
        cases here
        exact ⟨start_sound cbreak ignored initial unset, rfl⟩
    | next choice _ taken ih =>
        obtain ⟨quiet, made⟩ := Transition.restrict_some taken
        obtain ⟨sound, mode⟩ := step_sound initial choice _ _ ih.1 quiet made
        rw [← mode] at sound
        exact ⟨sound, mode.trans ih.2⟩
  obtain ⟨sound, mode⟩ := both
  have signals := sound.signals
  rw [mode] at sound
  have started (ready : state.main.ready = true) := ready_started state.main ready
  refine ⟨fun ended => ?_, fun how gone => (signals.ended how gone).1, fun none place => ?_⟩
  · have restored : clean state.main state.frames = true := by
      rcases ended with stopped | gone
      · exact signals.stopped stopped
      · obtain ⟨how, here⟩ := Option.ne_none_iff_exists'.mp gone
        exact (signals.ended how here).2
    have ready : state.main.ready = true := by
      by_contra early
      obtain ⟨_, _, running, alive⟩ := signals.early (Bool.eq_false_iff.mpr early)
      rcases ended with stopped | gone
      · rw [running] at stopped
        cases stopped
      · exact gone alive
    exact (sound.settings (started ready)).theirs restored
  · refine (sound.settings (by rw [place]; decide)).ours ?_
    rw [none, place]
    rfl

/-- SIGTSTP stops the program and the user changes the settings; when it goes on, SIGTERM comes
while `tstpHandler` is active. -/
def stopAndTerminate : List Choice :=
  List.replicate 5 .act ++ [.signal .SIGTSTP, .deliver .SIGTSTP] ++ List.replicate 5 .act ++
    [.deliver .SIGTSTP, .setTty ⟨0, 0, 0, 0, 1, 1⟩, .cont, .act, .signal .SIGTERM,
      .deliver .SIGTERM, .act, .act]

def cooked : State :=
  start true (fun _ => false) ⟨ICRNL, OPOST, 0, ICANON ||| ECHO, 0, 0⟩ ⟨0, 0, 0, 0, 0, 0⟩

theorem stopped_and_terminated :
    ∃ state, Transition.replay (Transition.restrict calm step) stopAndTerminate cooked =
      some state ∧
      state.ended = some .exited ∧ state.tty ∈ state.established := by
  have ended : (Transition.replay (Transition.restrict calm step) stopAndTerminate cooked).map
    State.ended =
      some (some .exited) := by
    decide +kernel
  obtain ⟨state, run, gone⟩ := Option.map_eq_some_iff.mp ended
  have given :=
    terminal_is_given_back true (fun _ => false) ⟨ICRNL, OPOST, 0, ICANON ||| ECHO, 0, 0⟩
      ⟨0, 0, 0, 0, 0, 0⟩ state (Transition.replay_reachable stopAndTerminate
        (Transition.Reachable.start rfl) run)
  exact ⟨state, run, gone, given.1 (Or.inr (by rw [gone]; decide))⟩

-- Before its handler is set up, SIGTSTP stops the program with its own settings.
example : (Transition.replay step [.act, .signal .SIGTSTP, .deliver .SIGTSTP] cooked).map
      (fun state => (state.stopped, decide (state.tty ∈ state.established))) =
        some (true, false) := by decide

end Tlpi.TerminalModes
